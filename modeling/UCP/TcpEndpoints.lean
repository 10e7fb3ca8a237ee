import UCP.TcpProcess

/-- The first match from the end of what a list gives is the last match. -/
theorem List.find?_reverse_filterMap {α β : Type*} {l : List α} {f : α → Option β} {p : β → Bool} {b : β}
    (found : (l.filterMap f).reverse.find? p = some b) :
    ∃ before a after, l = before ++ a :: after ∧ f a = some b ∧ ∀ x ∈ after.filterMap f, p x = false := by
  obtain ⟨_, newer, older, whole, others⟩ := List.find?_eq_some_iff_append.mp found
  have forwards : l.filterMap f = older.reverse ++ (b :: newer.reverse) := by
    rw [← List.reverse_reverse (l.filterMap f), whole]
    simp
  obtain ⟨before, rest, rfl, _, onwards⟩ := List.filterMap_eq_append_iff.mp forwards
  obtain ⟨skipped, a, after, rfl, _, gives, tail⟩ := List.filterMap_eq_cons_iff.mp onwards
  refine ⟨before ++ skipped, a, after, (List.append_assoc ..).symm, gives, fun x member => ?_⟩
  rw [tail, List.mem_reverse] at member
  simpa using others x member

namespace UCP

/-- The endpoints of the server are those of all connections that it has ever
accepted, the newest first, each in memory of its own. -/
structure TcpProcess.Remembers (events : List TcpEvent) (process : TcpProcess) : Prop where
  endpoints : process.server.endpoints = (events.filterMap TcpEvent.created).reverse
  pointers : (process.server.endpoints.map TcpEndpoint.pointer).Nodup
  child : ∀ sd, process.descriptors sd = some .child → ∃ endpoint ∈ process.server.endpoints, endpoint.sd = sd

section Remembers

variable {process process' : TcpProcess} {events : List TcpEvent} {event : TcpEvent}

/-- An event that creates no endpoint and no child leaves the memory as it is. -/
theorem TcpProcess.Remembers.keep (remembers : process.Remembers events) (nothing : event.created = none)
    (same : process'.server.endpoints = process.server.endpoints)
    (still : ∀ sd, process'.descriptors sd = some .child → process.descriptors sd = some .child) :
    process'.Remembers (events ++ [event]) where
  endpoints := by
    rw [same, remembers.endpoints, List.filterMap_append, List.filterMap_cons_none nothing, List.filterMap_nil,
      List.append_nil]
  pointers := by
    rw [same]
    exact remembers.pointers
  child sd owned := by
    rw [same]
    exact remembers.child sd (still sd owned)

theorem TcpEffect.remembers (remembers : process.Remembers events) (valid : event.Valid process)
    (effect : TcpEffect process event process') : process'.Remembers (events ++ [event]) := by
  cases effect with
  | refused failed => exact remembers.keep (if_pos failed) rfl fun _ => id
  | received => exact remembers.keep rfl rfl fun _ => id
  | @connected accepted endpoint server created room sd maxSd members newEndpoints =>
    have created' : (TcpEvent.accept accepted).created = some endpoint := created
    refine ⟨?_, ?_, fun other owned => ?_⟩
    · rw [newEndpoints, List.filterMap_append, List.filterMap_cons_some created', List.filterMap_nil,
        List.reverse_append, ← remembers.endpoints]
      rfl
    · rw [newEndpoints, List.map_cons, List.nodup_cons]
      refine ⟨fun used => ?_, remembers.pointers⟩
      obtain ⟨old, member, same⟩ := List.mem_map.mp used
      exact (valid endpoint created).2 old member same
    · rw [newEndpoints]
      by_cases new : other = endpoint.sd
      · exact ⟨endpoint, List.mem_cons_self .., new.symm⟩
      · have old : process.descriptors other = some .child := (Function.update_of_ne new ..).symm.trans owned
        obtain ⟨found, member, same⟩ := remembers.child other old
        exact ⟨found, List.mem_cons_of_mem _ member, same⟩
  | @disconnected childSd result server closing =>
    obtain ⟨_, _, _, sameEndpoints, _⟩ := closeChildSocket_eq_ok closing
    exact remembers.keep rfl sameEndpoints (by grind [Function.update_apply])
  | opened => exact remembers.keep rfl rfl (by grind [Function.update_apply])
  | closed => exact remembers.keep rfl rfl (by grind [Function.update_apply])

end Remembers

section Runs

variable {server : TcpServer} {sd childSd : Int} {others : Int → Bool} {events : List TcpEvent}
  {process : TcpProcess}

theorem TcpProcess.remembers (started : tcpServerStart true sd 0 0 = .ok (.server server))
    (run : Run TcpProcessStep (.ok (tcpProcessStart server others)) events (.ok process)) :
    process.Remembers events := by
  obtain ⟨_, _, _, _, empty⟩ := tcpServerStart_eq_ok started
  have first : (tcpProcessStart server others).Remembers [] :=
    ⟨empty, by simp [tcpProcessStart, empty], by grind [tcpProcessStart]⟩
  exact run.faulting_invariant (fun events process => process.Remembers events) first
    fun remembers valid ran => (tcpEvent_effect ran).2.remembers remembers valid

/-- An open child has the endpoint of the last accepted connection with its
descriptor, and `on_rx` sees this one only. -/
theorem endpoint_of_open_child (started : tcpServerStart true sd 0 0 = .ok (.server server))
    (run : Run TcpProcessStep (.ok (tcpProcessStart server others)) events (.ok process))
    (child : process.descriptors childSd = some .child) :
    ∃ before accepted after endpoint, events = before ++ .accept accepted :: after ∧
      accepted.newSd = childSd ∧ accepted.created = some endpoint ∧
      (∀ later, .accept later ∈ after → later.newSd ≠ childSd) ∧
      getEndpoint process.server childSd = some endpoint ∧
      ∀ result received, tcpServerReceive process.server childSd result = .ok received → ∀ rx ∈ received.rx,
        rx.endpoint = some endpoint ∧
          ∀ earlier old, .accept earlier ∈ before → earlier.created = some old → old.pointer ≠ endpoint.pointer := by
  have remembers := TcpProcess.remembers started run
  have survived := (tcpProcess_survives_iff started run).mp ⟨process, rfl⟩
  obtain ⟨endpoint, found⟩ : ∃ endpoint, getEndpoint process.server childSd = some endpoint := by
    obtain ⟨endpoint, member, same⟩ := remembers.child childSd child
    exact Option.isSome_iff_exists.mp (List.find?_isSome.mpr ⟨endpoint, member, decide_eq_true same⟩)
  have last := found
  rw [getEndpoint, remembers.endpoints] at last
  obtain ⟨before, event, after, rfl, created, newer⟩ := List.find?_reverse_filterMap last
  obtain ⟨accepted, rfl⟩ : ∃ accepted, event = .accept accepted := by
    cases event with
    | accept accepted => exact ⟨accepted, rfl⟩
    | _ => cases created
  have sameSd : endpoint.sd = childSd := by simpa using List.find?_some last
  have acceptedSd := TcpAccepted.created_eq_some created
  refine ⟨before, accepted, after, endpoint, rfl, acceptedSd.2.symm.trans sameSd, created, fun later member same => ?_,
    found, fun result received ran rx member => ?_⟩
  · have room : later.HasRoom := survived _ (List.mem_append_right _ (List.mem_cons_of_mem _ member))
    obtain ⟨other, created'⟩ := room.created (by omega)
    have otherSd := (TcpAccepted.created_eq_some created').2
    have differs := newer other (List.mem_filterMap.mpr ⟨_, member, created'⟩)
    exact of_decide_eq_false differs (otherSd.trans same)
  · refine ⟨(tcpServerReceive_endpoint ran member).trans found, fun earlier old inBefore created' samePointer => ?_⟩
    have pointers := remembers.pointers
    rw [remembers.endpoints, List.map_reverse, List.nodup_reverse, List.filterMap_append,
      List.filterMap_cons_some created, List.map_append, List.map_cons] at pointers
    have oldMember : old ∈ before.filterMap TcpEvent.created := List.mem_filterMap.mpr ⟨_, inBefore, created'⟩
    have oldPointer := List.mem_map_of_mem (f := TcpEndpoint.pointer) oldMember
    rw [samePointer] at oldPointer
    exact List.disjoint_of_nodup_append pointers oldPointer (List.mem_cons_self ..)

/-- A descriptor is handed out again after its connection was closed. -/
theorem endpoint_of_open_child_reused :
    let events : List TcpEvent :=
      [.accept ⟨5, some 1, none⟩, .receive 5 (.bytes [] (Nat.zero_le _)), .accept ⟨5, some 2, none⟩]
    ∃ process accepted endpoint,
      Run TcpProcessStep (.ok (tcpProcessStart listeningOn3 fun _ => false)) events (.ok process) ∧
        .accept accepted ∈ events ∧ accepted.created = some endpoint ∧
        getEndpoint process.server 5 = some endpoint := by
  intro events
  have run : ∃ process, Run TcpProcessStep (.ok (tcpProcessStart listeningOn3 fun _ => false)) events (.ok process) ∧
      process.descriptors 5 = some .child := by
    refine ⟨_, .cons ⟨_, rfl, ?_, rfl⟩ (.cons ⟨_, rfl, ?_, rfl⟩ (.cons ⟨_, rfl, ?_, rfl⟩ .start)), ?_⟩
    · rintro endpoint ⟨⟩
      exact ⟨rfl, fun old member => absurd member List.not_mem_nil⟩
    · rfl
    · rintro endpoint ⟨⟩
      refine ⟨rfl, fun old member => ?_⟩
      rw [List.mem_singleton.mp member]
      decide
    · rfl
  obtain ⟨process, run, child⟩ := run
  obtain ⟨before, accepted, after, endpoint, whole, _, created, _, found, _⟩ :=
    endpoint_of_open_child listeningOn3_started run child
  exact ⟨process, accepted, endpoint, run, whole ▸ List.mem_append_right _ (List.mem_cons_self ..), created, found⟩

end Runs

end UCP
