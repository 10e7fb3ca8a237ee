import UCP.Scene

namespace UCP

/-- A sequencer that waits for a number above all that it has been given. -/
structure Sequencer.Waits (seq : Sequencer) : Prop where
  invents : InventsNothing {x | x < uint32Max} seq
  marked : seq.expectedLastSeqNo = uint32Max

section Sequencer

variable {seq : Sequencer} {s : UInt32}

theorem Sequencer.Waits.start : sequencerInit.Waits := ⟨fun _ member => absurd member List.not_mem_nil, rfl⟩

theorem Sequencer.Waits.incomplete (waits : seq.Waits) : (sequencerComplete seq).1 = false := by
  by_contra complete
  have all := waits.invents.complete_all (Bool.not_eq_false _ ▸ complete) (s := uint32Max)
    (by rw [waits.marked]; exact UInt32.le_refl _)
  exact absurd all (UInt32.lt_irrefl uint32Max)

theorem Sequencer.Waits.complete (waits : seq.Waits) : (sequencerComplete seq).2.Waits :=
  ⟨waits.invents.complete, (sequencerComplete_expectedLastSeqNo seq).trans waits.marked⟩

theorem Sequencer.Waits.add (waits : seq.Waits) (small : s < uint32Max) : (sequencerAdd seq s false).2.Waits := by
  have grown := waits.invents.add s false
  rw [Set.insert_eq_of_mem (show s ∈ {x | x < uint32Max} from small)] at grown
  exact ⟨grown, (sequencerAdd_expectedLastSeqNo ..).trans waits.marked⟩

end Sequencer

/-- A control packet that `on_ack_received` does not take for the end. -/
def UcpCtrlPacket.IsReply (control : UcpCtrlPacket) : Prop := control.flag = ucpFlagAck ∨ control.flag = ucpFlagNack

/-- A scene that a transfer without a failed save comes through. -/
structure Scene.Sound (n : Nat) (a : Scene) : Prop where
  read : a.read ≤ n
  held : ∀ i ∈ a.pending ++ a.inFlight, i < a.read
  coming : ∀ i ∈ a.pushing.toList ++ a.queue, i < n
  sequencer : a.sequencer.Waits
  replies : ∀ control ∈ a.unread, control.IsReply

/-- How many packets the client has still to get rid of. -/
def Scene.left (n : Nat) (a : Scene) : Nat := n - a.read + a.pending.length + a.inFlight.length

/-- Some steps from scene to scene, by whomever. -/
def SceneSteps (n : Nat) : Scene → Scene → Prop := Relation.ReflTransGen fun a a' => ∃ actor, SceneStep n a actor a'

section Sound

variable {n : Nat} {a a' : Scene}

theorem Scene.Sound.held_of_sub (sound : a.Sound n) {pending inFlight : List Nat} {read : Nat}
    (more : a.read ≤ read)
    (sub : ∀ i ∈ pending ++ inFlight, i ∈ a.pending ++ a.inFlight ∨ i < read) :
    ∀ i ∈ pending ++ inFlight, i < read :=
  fun i member => (sub i member).elim (fun old => (sound.held i old).trans_le more) id

/-- The window behind a reply, and the packet that it was about. -/
theorem inFlight_reply (l : List Nat) (seqNo : UInt32) :
    (l.eraseP (hasNumber seqNo) = l ∧ l.find? (hasNumber seqNo) = none) ∨
      ∃ i ∈ l, l.find? (hasNumber seqNo) = some i ∧ (l.eraseP (hasNumber seqNo)).length + 1 = l.length := by
  cases found : l.find? (hasNumber seqNo) with
  | none => exact .inl ⟨List.eraseP_of_forall_not (List.find?_eq_none.mp found), rfl⟩
  | some i =>
    have member := List.mem_of_find?_eq_some found
    refine .inr ⟨i, member, rfl, ?_⟩
    rw [List.length_eraseP_of_mem member (List.find?_some found)]
    exact Nat.sub_add_cancel (List.length_pos_of_mem member)

/-- Every step keeps a scene sound, and leaves the client no more to do. -/
theorem Scene.Sound.step (sound : a.Sound n) (few : n < 2 ^ 32) {actor : Actor} (step : SceneStep n a actor a') :
    a'.Sound n ∧ a'.left n ≤ a.left n := by
  cases step with
  | @sendPending i pending _ list =>
    refine ⟨⟨sound.read, sound.held_of_sub (Nat.le_refl _) fun j member => .inl ?_, sound.coming, sound.sequencer,
      sound.replies⟩, ?_⟩
    · rw [list]
      simp only [List.mem_append, List.mem_cons, List.not_mem_nil, or_false] at member ⊢
      rcases member with pending | inFlight | rfl
      · exact .inl (.inr pending)
      · exact .inr inFlight
      · exact .inl (.inl rfl)
    · simp only [Scene.left, list, List.length_append, List.length_cons, List.length_nil]
      omega
  | sendNext _ _ within =>
    refine ⟨⟨within, sound.held_of_sub (Nat.le_succ _) fun j member => ?_, sound.coming, sound.sequencer,
      sound.replies⟩, ?_⟩
    · rw [← List.append_assoc] at member
      rcases List.mem_append.mp member with old | new
      · exact .inl old
      · exact .inr (List.mem_singleton.mp new ▸ Nat.lt_succ_self _)
    · simp only [Scene.left, List.length_append, List.length_cons, List.length_nil]
      omega
  | @sendInFlight i inFlight _ _ _ list =>
    refine ⟨⟨sound.read, sound.held_of_sub (Nat.le_refl _) fun j member => .inl ?_, sound.coming, sound.sequencer,
      sound.replies⟩, ?_⟩
    · rw [list]
      simp only [List.mem_append, List.mem_cons, List.not_mem_nil, or_false] at member ⊢
      rcases member with pending | inFlight | rfl
      · exact .inl pending
      · exact .inr (.inr inFlight)
      · exact .inr (.inl rfl)
    · simp only [Scene.left, list, List.length_append, List.length_cons, List.length_nil]
      omega
  | idle => exact ⟨⟨sound.read, sound.held, sound.coming, sound.sequencer, sound.replies⟩, Nat.le_refl _⟩
  | @readAck seqNo unread _ list =>
    refine ⟨⟨sound.read, sound.held_of_sub (Nat.le_refl _) fun j member => .inl ?_, sound.coming, sound.sequencer,
      fun control member => sound.replies control (list ▸ List.mem_cons_of_mem _ member)⟩, ?_⟩
    · exact List.mem_append.mpr ((List.mem_append.mp member).imp_right List.mem_of_mem_eraseP)
    · have shorter := (List.eraseP_sublist (p := hasNumber seqNo) (l := a.inFlight)).length_le
      simp only [Scene.left]
      omega
  | @readNack seqNo unread _ list =>
    refine ⟨⟨sound.read, sound.held_of_sub (Nat.le_refl _) fun j member => .inl ?_, sound.coming, sound.sequencer,
      fun control member => sound.replies control (list ▸ List.mem_cons_of_mem _ member)⟩, ?_⟩
    · simp only [List.mem_append, Option.mem_toList] at member ⊢
      rcases member with (old | moved) | stays
      · exact .inl old
      · exact .inr (List.mem_of_find?_eq_some moved)
      · exact .inr (List.mem_of_mem_eraseP stays)
    · rcases inFlight_reply a.inFlight seqNo with ⟨same, nothing⟩ | ⟨i, _, found, shorter⟩
      · simp only [Scene.left, same, nothing, Option.toList_none, List.append_nil]
        exact Nat.le_refl _
      · simp only [Scene.left, found, Option.toList_some, List.length_append, List.length_singleton]
        omega
  | @save i before free =>
    refine ⟨⟨sound.read, sound.held, fun j member => ?_, sound.sequencer, sound.replies⟩, Nat.le_refl _⟩
    rcases List.mem_cons.mp member with rfl | old
    · exact before.trans_le sound.read
    · exact sound.coming j (List.mem_append_right _ old)
  | @push i hand =>
    refine ⟨⟨sound.read, sound.held, fun j member => sound.coming j ?_, sound.sequencer, sound.replies⟩,
      Nat.le_refl _⟩
    rw [hand]
    simp only [Option.toList_none, Option.toList_some, List.mem_append, List.mem_singleton, List.not_mem_nil,
      false_or] at member ⊢
    exact member.symm
  | @turn i queue sequencer incomplete list added =>
    subst added
    have small : UInt32.ofNat i < uint32Max := by
      have within : i < n := sound.coming i (List.mem_append_right _ (list ▸ List.mem_cons_self ..))
      change UInt32.ofNat i < 4294967295
      rw [UInt32.lt_iff_toNat_lt, UInt32.toNat_ofNat_of_lt' (within.trans few)]
      change i < 4294967295
      omega
    refine ⟨⟨sound.read, sound.held, fun j member => sound.coming j ?_, sound.sequencer.complete.add small,
      fun control member => ?_⟩, Nat.le_refl _⟩
    · rw [list]
      exact List.mem_append.mpr ((List.mem_append.mp member).imp_right (List.mem_cons_of_mem _))
    · rcases List.mem_append.mp member with old | new
      · exact sound.replies control old
      · rcases List.mem_cons.mp new with rfl | missing
        · exact .inl rfl
        · obtain ⟨seqNo, _, rfl⟩ := List.mem_map.mp missing
          exact .inr rfl

theorem Scene.Sound.steps (sound : a.Sound n) (few : n < 2 ^ 32) (steps : SceneSteps n a a') :
    a'.Sound n ∧ a'.left n ≤ a.left n := by
  refine steps.keeps (fun {s s'} sound taken => ?_) sound
  obtain ⟨actor, taken⟩ := taken
  exact sound.step few taken

theorem SceneStep.steps {actor : Actor} (step : SceneStep n a actor a') : SceneSteps n a a' := .single ⟨actor, step⟩

/-- Nothing is on its way from the receiving thread to the sequencer. -/
def Scene.Drained (a : Scene) : Prop := a.pushing = none ∧ a.queue = []

/-- The server can work off what it has received. -/
theorem Scene.Sound.drains (sound : a.Sound n) (few : n < 2 ^ 32) :
    ∃ a', SceneSteps n a a' ∧ a'.Sound n ∧ a'.Drained := by
  refine Relation.reach_of_descends (fun a => 2 * a.pushing.toList.length + a.queue.length) (fun a sound => ?_) sound
  cases hand : a.pushing with
  | some i =>
    have step : SceneStep n a .receiving _ := .push hand
    refine .inr ⟨_, step.steps, (sound.step few step).1, ?_⟩
    simp only [Option.toList_none, Option.toList_some, List.length_append, List.length_singleton, List.length_nil]
    omega
  | none =>
    cases list : a.queue with
    | nil => exact .inl ⟨hand, list⟩
    | cons i queue =>
      have step : SceneStep n a .sequencing _ := .turn sound.sequencer.incomplete list rfl
      refine .inr ⟨_, step.steps, (sound.step few step).1, ?_⟩
      simp only [hand, List.length_cons]
      omega

/-- A client that has packets left sends one of them, and nothing else changes. -/
theorem Scene.sends (atGet : a.atTick = false) (more : a.left n ≠ 0) :
    ∃ i read pending inFlight,
      SceneStep n a .client { a with atTick := true, read, pending, inFlight := inFlight ++ [i] } := by
  cases list : a.pending with
  | cons i pending => exact ⟨i, _, _, _, .sendPending atGet list⟩
  | nil =>
    rcases Nat.lt_or_ge a.read n with within | finished
    · exact ⟨a.read, _, a.pending, _, .sendNext atGet list within⟩
    · cases list' : a.inFlight with
      | cons i inFlight => exact ⟨i, a.read, a.pending, _, .sendInFlight atGet list finished list'⟩
      | nil =>
        refine absurd ?_ more
        simp only [Scene.left, list, list', List.length_nil]
        omega

/-- The client has nothing left to do, or nothing left to read. -/
def Scene.Settled (n : Nat) (a : Scene) : Prop := a.left n = 0 ∨ a.unread = []

/-- The client can read all replies while the server waits. -/
theorem Scene.Sound.settles (sound : a.Sound n) (few : n < 2 ^ 32) (drained : a.Drained) :
    ∃ a', SceneSteps n a a' ∧ (a'.Sound n ∧ a'.Drained) ∧ a'.Settled n := by
  refine Relation.reach_of_descends (fun a => 2 * a.unread.length + if a.atTick then 0 else 1)
    (fun a sound => ?_) ⟨sound, drained⟩
  obtain ⟨sound, drained⟩ := sound
  by_cases settled : a.Settled n
  · exact .inl settled
  rw [Scene.Settled, not_or] at settled
  obtain ⟨more, unread⟩ := settled
  obtain ⟨⟨seqNo, flag⟩, rest, list⟩ := List.exists_cons_of_ne_nil unread
  cases atTick : a.atTick with
  | false =>
    obtain ⟨i, read, pending, inFlight, step⟩ := Scene.sends atTick more
    refine .inr ⟨_, step.steps, ⟨(sound.step few step).1, drained⟩, ?_⟩
    simp
  | true =>
    have isReply : UcpCtrlPacket.IsReply ⟨seqNo, flag⟩ := sound.replies _ (list ▸ List.mem_cons_self ..)
    rcases isReply with rfl | rfl
    · have step : SceneStep n a .client _ := .readAck atTick list
      refine .inr ⟨_, step.steps, ⟨(sound.step few step).1, drained⟩, ?_⟩
      simp [list]
      omega
    · have step : SceneStep n a .client _ := .readNack atTick list
      refine .inr ⟨_, step.steps, ⟨(sound.step few step).1, drained⟩, ?_⟩
      simp [list]
      omega

/-- A packet in flight is received, acknowledged and forgotten. -/
theorem Scene.Sound.acknowledges (sound : a.Sound n) (few : n < 2 ^ 32) (drained : a.Drained) (read : a.unread = [])
    (atTick : a.atTick = true) {i : Nat} (sent : i ∈ a.inFlight) :
    ∃ a', SceneSteps n a a' ∧ a'.Sound n ∧ a'.left n < a.left n := by
  obtain ⟨free, idle⟩ := drained
  have saved : SceneStep n a .receiving _ := .save (sound.held i (List.mem_append_right _ sent)) free
  obtain ⟨sound1, _⟩ := sound.step few saved
  have pushed : SceneStep n { a with pushing := some i } .receiving _ := .push rfl
  obtain ⟨sound2, _⟩ := sound1.step few pushed
  have queue : a.queue ++ [i] = [i] := by rw [idle, List.nil_append]
  obtain ⟨a3, turned, atTick3, ⟨rest, unread⟩, same, window⟩ : ∃ a3,
      SceneStep n { a with pushing := none, queue := a.queue ++ [i] } .sequencing a3 ∧ a3.atTick = true ∧
        (∃ rest, a3.unread = ⟨UInt32.ofNat i, ucpFlagAck⟩ :: rest) ∧ a3.left n = a.left n ∧ a3.inFlight = a.inFlight :=
    ⟨_, .turn sound2.sequencer.incomplete queue rfl, atTick, ⟨_, congrArg (· ++ _) read⟩, rfl, rfl⟩
  obtain ⟨sound3, _⟩ := sound2.step few turned
  have acked : SceneStep n a3 .client _ := .readAck atTick3 unread
  refine ⟨_, (saved.steps.trans pushed.steps).trans (turned.steps.trans acked.steps), (sound3.step few acked).1, ?_⟩
  rw [← same]
  rcases inFlight_reply a3.inFlight (UInt32.ofNat i) with ⟨_, nothing⟩ | ⟨j, _, _, shorter⟩
  · rw [window] at nothing
    exact absurd (beq_self_eq_true (UInt32.ofNat i)) (List.find?_eq_none.mp nothing i sent)
  · simp only [Scene.left]
    omega

theorem Scene.leavesTick (a : Scene) : SceneSteps n a { a with atTick := false } := by
  obtain ⟨read, atTick, rest⟩ := a
  cases atTick with
  | false => exact .refl
  | true => exact (SceneStep.idle rfl).steps

/-- From every sound scene the client can get rid of all packets. -/
theorem Scene.Sound.finishes (sound : a.Sound n) (few : n < 2 ^ 32) :
    ∃ a', SceneSteps n a a' ∧ a'.Sound n ∧ a'.atTick = false ∧ a'.left n = 0 := by
  obtain ⟨a1, steps, sound1, nothing⟩ : ∃ a', SceneSteps n a a' ∧ a'.Sound n ∧ a'.left n = 0 := by
    refine Relation.reach_of_descends (Scene.left n) (fun a sound => ?_) sound
    by_cases nothing : a.left n = 0
    · exact .inl nothing
    obtain ⟨a1, steps1, sound1, drained1⟩ := sound.drains few
    obtain ⟨a2, steps2, ⟨sound2, drained2⟩, settled⟩ := sound1.settles few drained1
    have steps := steps1.trans steps2
    have fewer := (sound.steps few steps).2
    by_cases last : a2.left n = 0
    · exact .inr ⟨a2, steps, sound2, by omega⟩
    have leaves := Scene.leavesTick (n := n) a2
    obtain ⟨i, read, pending, inFlight, sent⟩ := Scene.sends (a := { a2 with atTick := false }) rfl last
    obtain ⟨sound3, fewer3⟩ := (sound2.steps few leaves).1.step few sent
    obtain ⟨a4, steps4, sound4, fewer4⟩ := sound3.acknowledges few drained2 (settled.resolve_left last) rfl
      List.mem_concat_self
    exact .inr ⟨a4, (steps.trans leaves).trans (sent.steps.trans steps4), sound4,
      fewer4.trans_le (fewer3.trans fewer)⟩
  have leaves := Scene.leavesTick (n := n) a1
  exact ⟨_, steps.trans leaves, (sound1.steps few leaves).1, rfl, nothing⟩

end Sound

end UCP
