import AnvilRing.Hub.Ids

/-!
# What a session puts into its command queue

* `Proper`                    every stream is opened once, and before its other frames;
* `Session.Command`           why a task queues a frame;
* `Session.Move.command`      a step leaves the queue alone, adds one such frame, or sends one;
* `Session.Started`           a stream has tasks only once its OPEN is queued;
* `Session.Uploads`           the request frames of a stream are what its body says, in order.
-/

namespace AnvilRing
open Wire

/-- the stream that a request frame belongs to, which an OPEN must have named before -/
def Frame.follows : Frame → Option UInt16
  | .data s _ => some s
  | .halfEnd s => some s
  | .end s _ => some s
  | _ => none

/-- the stream that an END frame ends -/
def Frame.ended : Frame → Option UInt16
  | .end s _ => some s
  | _ => none

/-- the ids on the END frames of `fs`, in order -/
def endedIds (fs : List Frame) : List UInt16 := fs.filterMap Frame.ended

@[simp] theorem endedIds_append (fs gs : List Frame) :
    endedIds (fs ++ gs) = endedIds fs ++ endedIds gs := List.filterMap_append

theorem mem_endedIds {fs : List Frame} {i : UInt16} :
    i ∈ endedIds fs ↔ ∃ r, .end i r ∈ fs := by
  unfold endedIds
  rw [List.mem_filterMap]
  constructor
  · intro h
    obtain ⟨f, hf, hi⟩ := h
    cases f with
    | «end» s r =>
      obtain rfl := Option.some.inj hi
      exact ⟨r, hf⟩
    | _ => cases hi
  · intro h
    obtain ⟨r, hf⟩ := h
    exact ⟨_, hf, rfl⟩

/-! ## uploads -/

/-- what a tether queues for the request body of stream `i`; HALF_END is the empty vector -/
def Frame.upload (i : UInt16) : Frame → Option Bytes
  | .data s b => if s = i then some b else none
  | .halfEnd s => if s = i then some [] else none
  | _ => none

theorem upload_not_opens {i : UInt16} {f : Frame} {b : Bytes} (h : f.upload i = some b) :
    f.opens = none := by
  cases f with
  | «open» id head => cases h
  | _ => rfl

/-- the request body of stream `i` on the frames `fs` -/
def uploads (i : UInt16) (fs : List Frame) : List Bytes := fs.filterMap (Frame.upload i)

/-- the chunks that an upload task sends of a body -/
def bodyChunks (body : List CallerFrame) : List Bytes :=
  (body.map CallerFrame.bytes).filter fun b => b ≠ []

/-- what an upload task sends of a body: its chunks, and HALF_END if it ends cleanly -/
def script (body : List CallerFrame) (ok : Bool) : List Bytes :=
  bodyChunks body ++ if ok then [[]] else []

@[simp] theorem uploads_append (i : UInt16) (fs gs : List Frame) :
    uploads i (fs ++ gs) = uploads i fs ++ uploads i gs := List.filterMap_append

theorem uploads_snoc (i : UInt16) (fs : List Frame) (f : Frame) :
    uploads i (fs ++ [f]) = uploads i fs ++ (f.upload i).toList := by
  rw [uploads_append]
  cases h : f.upload i with
  | none => simp [uploads, h]
  | some b => simp [uploads, h]

theorem upload_follows {i : UInt16} {f : Frame} {b : Bytes} (h : f.upload i = some b) :
    f.follows = some i := by
  cases f with
  | data s c =>
    by_cases hs : s = i
    · exact congrArg some hs
    · simp [Frame.upload, hs] at h
  | halfEnd s =>
    by_cases hs : s = i
    · exact congrArg some hs
    · simp [Frame.upload, hs] at h
  | _ => cases h

theorem bodyChunks_ne {body : List CallerFrame} {b : Bytes} (h : b ∈ bodyChunks body) : b ≠ [] := by
  obtain ⟨_, hb⟩ := List.mem_filter.mp h
  simpa using hb

/-- the chunks carry every byte of the body -/
theorem flatten_bodyChunks (body : List CallerFrame) :
    (bodyChunks body).flatten = bodyBytes body := by
  induction body with
  | nil => rfl
  | cons f body ih =>
    show (List.filter _ (f.bytes :: body.map CallerFrame.bytes)).flatten = f.bytes ++ bodyBytes body
    rw [← ih]
    by_cases hf : f.bytes = []
    · simp [hf, bodyChunks]
    · simp [hf, bodyChunks]

theorem IsUpload.follows {i : UInt16} {f : Frame} (h : IsUpload i f) : f.follows = some i := by
  rcases h with rfl | ⟨b, _, rfl⟩
  · rfl
  · rfl

/-! ## the order of the frames of a stream -/

/-- every stream is opened once, and the frames that belong to it come after its OPEN -/
inductive Proper : List Frame → Prop where
  | nil : Proper []
  | snoc {fs : List Frame} {f : Frame} (h : Proper fs)
      (ho : ∀ i, f.opens = some i → i ∉ openedIds fs)
      (hf : ∀ i, f.follows = some i → i ∈ openedIds fs) : Proper (fs ++ [f])

namespace Proper
variable {fs gs : List Frame} {f : Frame} {i : UInt16}

theorem last (h : Proper (fs ++ [f])) : Proper fs ∧ (∀ i, f.opens = some i → i ∉ openedIds fs) ∧
    ∀ i, f.follows = some i → i ∈ openedIds fs := by
  generalize hl : fs ++ [f] = l at h
  cases h with
  | nil => exact absurd hl (by simp)
  | snoc h ho hf =>
    obtain ⟨rfl, he⟩ := List.append_inj' hl rfl
    cases he
    exact ⟨h, ho, hf⟩

theorem of_append (h : Proper (fs ++ gs)) : Proper fs := by
  induction gs using List.reverseRecOn with
  | nil => rwa [List.append_nil] at h
  | append_singleton gs f ih =>
    rw [← List.append_assoc] at h
    exact ih h.last.1

theorem of_initial (h : Proper gs) (hp : fs <+: gs) : Proper fs := by
  obtain ⟨rest, rfl⟩ := hp
  exact h.of_append

theorem nodup (h : Proper fs) : (openedIds fs).Nodup := by
  induction h with
  | nil => exact List.nodup_nil
  | @snoc fs f h ho hf ih =>
    rw [openedIds_append]
    cases hx : f.opens with
    | none =>
      rw [show openedIds [f] = [] from List.filterMap_cons_none hx, List.append_nil]
      exact ih
    | some i =>
      rw [show openedIds [f] = [i] from List.filterMap_cons_some hx]
      refine List.nodup_append.mpr ⟨ih, List.nodup_singleton i, ?_⟩
      intro j hj k hk
      obtain rfl := List.mem_singleton.mp hk
      rintro rfl
      exact ho j hx hj

/-- what belongs to a stream comes with its OPEN -/
theorem mem_opened (h : Proper fs) (hf : f ∈ fs) (hi : f.follows = some i) : i ∈ openedIds fs := by
  induction h with
  | nil => cases hf
  | snoc h ho hfs ih =>
    rw [openedIds_append]
    refine List.mem_append_left _ ?_
    rcases List.mem_append.mp hf with hf | hf
    · exact ih hf
    · obtain rfl := List.mem_singleton.mp hf
      exact hfs i hi

theorem uploads_eq_nil (h : Proper fs) (hi : i ∉ openedIds fs) : uploads i fs = [] := by
  refine List.filterMap_eq_nil_iff.mpr fun f hf => ?_
  cases hu : f.upload i with
  | none => rfl
  | some b => exact absurd (h.mem_opened hf (upload_follows hu)) hi

end Proper

/-- the stream that a forward has opened and not returned yet -/
def ForwardPc.launched : ForwardPc → Option UInt16
  | .opened i => some i
  | .spawned i => some i
  | _ => none

/-- the stream that a forward has registered and not spawned tasks for yet -/
def ForwardPc.unspawned : ForwardPc → Option UInt16
  | .admitted i => some i
  | .opened i => some i
  | _ => none

namespace Session
variable {lib : HttpLib} {s t : Session} {a : SessionAction}

/-! ## who queues what -/

/-- why a task puts a frame into the command queue -/
inductive Command (s : Session) : Frame → Prop where
  | control {f : Frame} (hf : f = .ping ∨ f = .pong) : Command s f
  | «open» {i : UInt16} {head : Bytes} (hf : s.forward = .admitted i) : Command s (.open i head)
  | upload {i : UInt16} {f : Frame} (hu : (s.state i).uploadPc = .sending f) (hf : IsUpload i f) :
      Command s f
  | reply {i : UInt16} {reason : Bytes} (hl : s.loop = .reply i reason) : Command s (.end i reason)
  | uploadEnd {i : UInt16} (hu : (s.state i).uploadPc = .ending) : Command s (.end i uploadFailed)
  | guardEnd {i : UInt16} (hg : (s.state i).guardPc = .ending) : Command s (.end i [])

/-- a step leaves the command queue alone, adds a frame to it, or sends its oldest frame -/
theorem Move.command (hm : Move lib s a t) (hs : s.Sends) :
    (t.tx.taken = s.tx.taken ∧ t.tx.queue = s.tx.queue) ∨
    (∃ f, s.Command f ∧ t.tx.taken = s.tx.taken ∧ t.tx.queue = s.tx.queue ++ [f]) ∨
    (a = .write ∧ ∃ f, t.tx.taken = s.tx.taken ++ [f] ∧ s.tx.queue = f :: t.tx.queue) := by
  cases hm with
  | @control _ f _ hf _ => exact .inr (.inl ⟨f, .control hf, rfl, rfl⟩)
  | reply hl => exact .inr (.inl ⟨_, .reply hl, rfl, rfl⟩)
  | «open» hf => exact .inr (.inl ⟨_, .open hf, rfl, rfl⟩)
  | @sent i f hu => exact .inr (.inl ⟨f, .upload hu (hs i f hu), rfl, rfl⟩)
  | uploadEnd hu => exact .inr (.inl ⟨_, .uploadEnd hu, rfl, rfl⟩)
  | guardEnd hg => exact .inr (.inl ⟨_, .guardEnd hg, rfl, rfl⟩)
  | @write f tx _ hr =>
    obtain ⟨hq, htx⟩ := Chan.recv_some hr
    refine .inr (.inr ⟨rfl, f, ?_, hq⟩)
    show tx.taken = _
    rw [htx]
  | _ => exact .inl ⟨rfl, rfl⟩

/-- what a step adds to everything that was ever queued -/
theorem Move.log (hm : Move lib s a t) (hs : s.Sends) :
    t.tx.log = s.tx.log ∨ ∃ f, s.Command f ∧ t.tx.log = s.tx.log ++ [f] := by
  unfold Chan.log
  rcases hm.command hs with ⟨h1, h2⟩ | ⟨f, hf, h1, h2⟩ | ⟨_, f, h1, h2⟩
  · left
    rw [h1, h2]
  · right
    refine ⟨f, hf, ?_⟩
    rw [h1, h2, List.append_assoc]
  · left
    rw [h1, h2, List.append_assoc]
    rfl

theorem Move.openedIds_subset (hm : Move lib s a t) (hs : s.Sends) {i : UInt16}
    (hi : i ∈ openedIds s.tx.log) : i ∈ openedIds t.tx.log := by
  rcases hm.log hs with h | ⟨f, _, h⟩
  · rw [h]
    exact hi
  · rw [h, openedIds_append]
    exact List.mem_append_left _ hi

/-! ## a stream has tasks only once it is open -/

/-- no task of the stream was spawned yet -/
def Unstarted (st : StreamState) : Prop :=
  st.uploadPc = .absent ∧ st.guardPc = .absent ∧ st.callerPc = .absent

structure Started (s : Session) : Prop where
  launched : ∀ i, s.forward.launched = some i → i ∈ openedIds s.tx.log
  unspawned : ∀ i, s.forward.unspawned = some i → Unstarted (s.state i)
  tasks : ∀ i, ¬ Unstarted (s.state i) → i ∈ openedIds s.tx.log

/-- a move that starts no task -/
theorem Started.frame (h : s.Started) (ho : ∀ i ∈ openedIds s.tx.log, i ∈ openedIds t.tx.log)
    (hf : t.forward = s.forward ∨
      t.forward.launched = none ∧ t.forward.unspawned = none)
    (hu : ∀ i, Unstarted (s.state i) → Unstarted (t.state i)) : t.Started where
  launched i hi := by
    rcases hf with hf | hf
    · exact ho i (h.launched i (hf ▸ hi))
    · rw [hf.1] at hi
      cases hi
  unspawned i hi := by
    rcases hf with hf | hf
    · exact hu i (h.unspawned i (hf ▸ hi))
    · rw [hf.2] at hi
      cases hi
  tasks i hi := ho i (h.tasks i fun hs => hi (hu i hs))

theorem unstarted_setState {i : UInt16} {st : StreamState}
    (h : Unstarted (s.state i) → Unstarted st) (j : UInt16) :
    Unstarted (s.state j) → Unstarted ((s.setState i st).state j) :=
  forall_setState (P := fun j st => Unstarted (s.state j) → Unstarted st) (fun _ hj => hj) h j

/-- the forward spawns tasks for a stream that it has opened -/
theorem Started.spawned (h : s.Started) (id : UInt16) (hid : s.forward.launched = some id)
    {st : StreamState} (ho : t.tx = s.tx) (ht : t.state = (s.setState id st).state)
    (hf : ∀ i, t.forward.launched = some i → i = id) (hn : t.forward.unspawned = none) :
    t.Started where
  launched i hi := by
    rw [ho, hf i hi]
    exact h.launched id hid
  unspawned i hi := by
    rw [hn] at hi
    cases hi
  tasks i hi := by
    rw [ho]
    by_cases hii : i = id
    · rw [hii]
      exact h.launched id hid
    · rw [ht, setState_of_ne s st hii] at hi
      exact h.tasks i hi

theorem Started.move (h : s.Started) (hs : s.Sends) (hm : Move lib s a t) : t.Started := by
  have ho : ∀ i ∈ openedIds s.tx.log, i ∈ openedIds t.tx.log := fun i => hm.openedIds_subset hs
  cases hm with
  | quiet | alive | frame | leave | control | takeUp | headBad | dataBad | remove | reply | noReply
  | ownDrain | ownFailed | ownReturned | detached | registryDrain | registryFailed | cancel
  | write | writerEnd => exact h.frame ho (.inl rfl) fun _ hu => hu
  | reserveOk | reserveNo | exhausted | allocate | gone | busy | answered =>
    exact h.frame ho (.inr ⟨rfl, rfl⟩) fun _ hu => hu
  | headOk | dataOk => exact h.frame ho (.inl rfl) (unstarted_setState fun hu => hu)
  | terminate | ownFail | registryFail =>
    refine h.frame ho (.inl rfl) (unstarted_setState ?_)
    rw [StreamState.terminate_eq]
    exact fun hu => hu
  | @register req id hf =>
    have hu : ∀ i, Unstarted (s.state i) →
        Unstarted ((s.setState id (StreamState.fresh req s.received.length)).state i) :=
      unstarted_setState fun _ => ⟨rfl, rfl, rfl⟩
    refine ⟨nofun, ?_, fun i hi => h.tasks i fun hx => hi (hu i hx)⟩
    intro i hi
    obtain rfl := Option.some.inj hi
    show Unstarted ((s.setState id _).state id)
    rw [setState_self]
    exact ⟨rfl, rfl, rfl⟩
  | @«open» id hf =>
    refine ⟨?_, ?_, fun i hi => ho i (h.tasks i hi)⟩
    · intro i hi
      obtain rfl := Option.some.inj hi
      show id ∈ openedIds (s.tx.sendPermit _).log
      rw [Chan.log_sendPermit, openedIds_append]
      exact List.mem_append_right _ (List.mem_singleton_self id)
    · intro i hi
      obtain rfl := Option.some.inj hi
      exact h.unspawned id (by rw [hf]; rfl)
  | @spawn id hf =>
    refine h.spawned id (by rw [hf]; rfl) rfl rfl ?_ rfl
    exact fun i hi => (Option.some.inj hi).symm
  | @install id hf => exact h.spawned id (by rw [hf]; rfl) rfl rfl nofun rfl
  | readData hu | readTrailers hu | readEnd hu | sent hu | sendFailed hu | erred hu | uploadFail hu
  | uploadEnd hu | uploadFull hu | uploadClosed hu | uploadAbort hu =>
    refine h.frame ho (.inl rfl) (unstarted_setState fun hx => ?_)
    rw [hx.1] at hu
    cases hu
  | uploadCancel _ hu =>
    refine h.frame ho (.inl rfl) (unstarted_setState fun hx => ?_)
    rw [hx.1] at hu
    rcases hu with hu | ⟨f, hu⟩
    · cases hu
    · cases hu
  | guardAbortUpload hg | guardRemove hg | guardCheck hg | guardEnd hg | guardFull hg
  | guardClosed hg | guardAbort hg =>
    refine h.frame ho (.inl rfl) (unstarted_setState fun hx => ?_)
    rw [hx.2.1] at hg
    cases hg
  | caller hh =>
    refine h.frame ho (.inl rfl) (unstarted_setState fun hx => ?_)
    unfold StreamState.handle at hh
    rw [hx.2.2] at hh
    cases hh
  | callerDrop hh =>
    refine h.frame ho (.inl rfl) (unstarted_setState fun hx => ?_)
    unfold StreamState.callerDrop at hh
    rw [hx.2.2] at hh
    cases hh

theorem Reachable.started (h : Reachable lib s) : s.Started := by
  refine h.move (P := Started) ?_ fun _ _ _ hr hs hm => hs.move hr.sends hm
  intro _ _ _
  exact ⟨fun _ hi => (nomatch hi), fun _ hi => (nomatch hi),
    fun _ hi => absurd ⟨rfl, rfl, rfl⟩ hi⟩

/-! ## the upload follows the body -/

/-- `sent` is what the upload task has queued so far -/
def Uploaded (st : StreamState) (sent : List Bytes) : Prop :=
  match st.uploadPc with
  | .absent => sent = [] ∧ st.body = st.request.body
  | .reading => sent ++ script st.body st.request.bodyOk = script st.request.body st.request.bodyOk
  | .sending (.data _ b) =>
    sent ++ b :: script st.body st.request.bodyOk = script st.request.body st.request.bodyOk
  | .sending _ => sent ++ [[]] = script st.request.body st.request.bodyOk
  | _ => sent <+: script st.request.body st.request.bodyOk

def Uploads (s : Session) : Prop := ∀ i, Uploaded (s.state i) (uploads i s.tx.log)

/-- whatever the upload task is at, it has sent a prefix of the script -/
theorem Uploaded.isPrefix {st : StreamState} {sent : List Bytes} (h : Uploaded st sent) :
    sent <+: script st.request.body st.request.bodyOk := by
  unfold Uploaded at h
  split at h
  · rw [h.1]
    exact List.nil_prefix
  · exact ⟨_, h⟩
  · exact ⟨_, h⟩
  · exact ⟨_, h⟩
  · exact h

theorem Uploaded.congr {st st' : StreamState} {sent : List Bytes} (h : Uploaded st sent)
    (hr : st'.request = st.request) (hb : st'.body = st.body) (hu : st'.uploadPc = st.uploadPc) :
    Uploaded st' sent := by
  unfold Uploaded at h ⊢
  rw [hr, hb, hu]
  exact h

/-- the task ends: what it sent stays -/
theorem Uploaded.quit {st st' : StreamState} {sent : List Bytes} (h : Uploaded st sent)
    (hr : st'.request = st.request) (ha : st'.uploadPc ≠ .absent) (hd : st'.uploadPc ≠ .reading)
    (hs : ∀ f, st'.uploadPc ≠ .sending f) : Uploaded st' sent := by
  have hp := h.isPrefix
  unfold Uploaded
  rw [hr]
  split
  · next hu => exact absurd hu ha
  · next hu => exact absurd hu hd
  · next hu => exact absurd hu (hs _)
  · next hu => exact absurd hu (hs _)
  · exact hp

/-- a move that queues nothing of a request body -/
theorem Uploads.frame (h : s.Uploads) (hl : ∀ j, uploads j t.tx.log = uploads j s.tx.log)
    (hu : ∀ j, Uploaded (s.state j) (uploads j s.tx.log) →
      Uploaded (t.state j) (uploads j s.tx.log)) : t.Uploads := by
  intro j
  rw [hl]
  exact hu j (h j)

theorem uploaded_setState {i : UInt16} {st : StreamState}
    (h : Uploaded (s.state i) (uploads i s.tx.log) → Uploaded st (uploads i s.tx.log))
    (j : UInt16) : Uploaded (s.state j) (uploads j s.tx.log) →
      Uploaded ((s.setState i st).state j) (uploads j s.tx.log) :=
  forall_setState (P := fun j st => Uploaded (s.state j) (uploads j s.tx.log) →
    Uploaded st (uploads j s.tx.log)) (fun _ hj => hj) h j

theorem uploads_push {c : Chan Frame} {f : Frame} (h : ∀ j, f.upload j = none) (j : UInt16) :
    uploads j (c.push f).log = uploads j c.log := by
  rw [Chan.log_push, uploads_snoc, h]
  simp

/-- the next frame of the script is queued -/
theorem Uploads.sent (h : s.Uploads) {i : UInt16} {f : Frame}
    (hu : (s.state i).uploadPc = .sending f) (hf : IsUpload i f) :
    Uploads { s.setState i { s.state i with
      uploadPc := if f = .halfEnd i then .done else .reading } with tx := s.tx.push f } := by
  intro j
  show Uploaded ((s.setState i _).state j) (uploads j (s.tx.push f).log)
  rw [Chan.log_push, uploads_snoc]
  have hi := h i
  unfold Uploaded at hi
  rw [hu] at hi
  by_cases hji : j = i
  · subst hji
    rw [setState_self]
    unfold Uploaded
    rcases hf with rfl | ⟨b, hb, rfl⟩
    · simp only [Frame.upload, ↓reduceIte, Option.toList_some]
      exact ⟨[], (List.append_nil _).trans hi⟩
    · simp only [Frame.upload, ↓reduceIte, Option.toList_some, reduceCtorEq, List.append_assoc,
        List.singleton_append]
      exact hi
  · have hn : f.upload j = none := by
      cases hx : f.upload j with
      | none => rfl
      | some b => exact absurd (Option.some.inj ((upload_follows hx).symm.trans hf.follows)) hji
    rw [setState_of_ne s _ hji, hn, Option.toList_none, List.append_nil]
    exact h j

theorem Uploads.move (h : s.Uploads) (hid : s.IdInv) (hs : s.Sends) (hstart : s.Started)
    (hm : Move lib s a t) : t.Uploads := by
  cases hm with
  | quiet | alive | frame | leave | takeUp | headBad | dataBad | remove | noReply
  | ownDrain | ownFailed | ownReturned | detached | registryDrain | registryFailed | cancel
  | reserveOk | reserveNo | exhausted | allocate | gone | busy | answered | writerEnd => exact h
  | @control _ f _ hf _ =>
    refine h.frame (uploads_push fun j => ?_) fun _ hu => hu
    rcases hf with rfl | rfl
    · rfl
    · rfl
  | reply => exact h.frame (uploads_push fun _ => rfl) fun _ hu => hu
  | «open» =>
    refine h.frame (fun j => ?_) fun _ hu => hu
    rw [Chan.log_sendPermit, uploads_snoc]
    exact List.append_nil _
  | @write f tx _ hr =>
    refine h.frame (fun j => ?_) fun _ hu => hu
    show uploads j tx.log = _
    rw [Chan.log_recv hr]
  | headOk | dataOk | guardAbortUpload | guardRemove | guardCheck | guardFull | guardClosed
  | guardAbort => exact h.frame (fun _ => rfl) (uploaded_setState fun hu => hu.congr rfl rfl rfl)
  | guardEnd =>
    exact h.frame (uploads_push fun _ => rfl) (uploaded_setState fun hu => hu.congr rfl rfl rfl)
  | terminate | ownFail | registryFail =>
    refine h.frame (fun _ => rfl) (uploaded_setState ?_)
    rw [StreamState.terminate_eq]
    exact fun hu => hu.congr rfl rfl rfl
  | @register req id hf =>
    refine h.frame (fun _ => rfl) (uploaded_setState fun hu => ?_)
    have hnew : Unstarted (s.state id) := by
      by_contra hx
      exact hid.unopened id (by rw [hf]; rfl) (hstart.tasks id hx)
    unfold Uploaded at hu
    rw [hnew.1] at hu
    rw [hu.1]
    exact ⟨rfl, rfl⟩
  | @spawn id hf =>
    refine h.frame (fun _ => rfl) (uploaded_setState fun hu => ?_)
    unfold Uploaded at hu
    rw [(hstart.unspawned id (by rw [hf]; rfl)).1] at hu
    show uploads id s.tx.log ++ script (s.state id).body _ = _
    rw [hu.1, hu.2]
    rfl
  | @install id hf =>
    refine h.frame (fun _ => rfl) (uploaded_setState ?_)
    rw [StreamState.installUpload_eq]
    exact fun hu => hu.congr rfl rfl rfl
  | @readData i b rest hu hb =>
    refine h.frame (fun _ => rfl) (uploaded_setState fun hx => ?_)
    unfold Uploaded at hx ⊢
    rw [hu, hb] at hx
    by_cases hb0 : b = []
    · subst hb0
      exact hx
    · simp only [if_neg hb0]
      rw [← hx]
      simp [script, bodyChunks, CallerFrame.bytes, hb0]
  | @readTrailers i rest hu hb =>
    refine h.frame (fun _ => rfl) (uploaded_setState fun hx => ?_)
    unfold Uploaded at hx ⊢
    rw [hu, hb] at hx
    rw [hu]
    exact hx
  | @readEnd i hu hb =>
    refine h.frame (fun _ => rfl) (uploaded_setState fun hx => ?_)
    unfold Uploaded at hx ⊢
    rw [hu, hb] at hx
    cases hok : (s.state i).request.bodyOk with
    | true =>
      rw [hok] at hx
      simp only [↓reduceIte]
      exact hx
    | false =>
      rw [hok] at hx
      simp only [Bool.false_eq_true, ↓reduceIte]
      exact ⟨[], (List.append_nil _).trans ((List.append_nil _).symm.trans hx)⟩
  | @sent i f hu => exact h.sent hu (hs i f hu)
  | sendFailed | uploadFull | uploadClosed | uploadAbort | uploadCancel =>
    exact h.frame (fun _ => rfl) (uploaded_setState fun hx => hx.quit rfl nofun nofun nofun)
  | uploadEnd =>
    exact h.frame (uploads_push fun _ => rfl)
      (uploaded_setState fun hx => hx.quit rfl nofun nofun nofun)
  | @erred i e hu =>
    refine h.frame (fun _ => rfl) (uploaded_setState fun hx => hx.quit rfl ?_ ?_ ?_)
    all_goals
      by_cases hc : (s.state i).completed = true
      · simp [hc]
      · simp [hc]
  | @uploadFail i stage hu =>
    refine h.frame (fun _ => rfl) (uploaded_setState fun hx => hx.quit ?_ ?_ ?_ ?_)
    · rw [StreamState.terminate_eq]
    all_goals
      cases stage <;> exact nofun
  | @caller i budget st hh =>
    refine h.frame (fun _ => rfl) (uploaded_setState fun hx => ?_)
    rw [StreamState.handle_eq hh]
    exact hx.congr rfl rfl rfl
  | @callerDrop i st hh =>
    refine h.frame (fun _ => rfl) (uploaded_setState fun hx => ?_)
    rw [StreamState.callerDrop_eq hh]
    exact hx.congr rfl rfl rfl

/-- what a session has queued of a request body is a prefix of the script of the caller's body -/
theorem Reachable.uploads (h : Reachable lib s) : s.Uploads := by
  refine h.move (P := Uploads) ?_ fun _ _ _ hr hu hm => hu.move hr.idInv hr.sends hr.started hm
  exact fun _ _ _ _ => ⟨rfl, rfl⟩

end Session

end AnvilRing
