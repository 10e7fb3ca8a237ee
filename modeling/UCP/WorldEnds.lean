import UCP.WorldProgress

namespace UCP

/-- A server that has connected serves, or its threads have returned and it has
exited. -/
def DaemonState.Kept (d : DaemonState) : Prop :=
  d.connected = true → d.pc = .serve ∨
    (d.pc = .exited ∧ d.server.receiving.pc = .returned ∧ d.server.sequencing.pc = .returned)

theorem DaemonStep.kept {disk : Disk} {arrives : UdpDatagram → Prop} {d d' : DaemonState} {act : DaemonAct}
    (step : DaemonStep disk arrives d act d') (kept : d.Kept) : d'.Kept := by
  -- before it serves a server has not connected
  have early {pc : DaemonPc} (before : d.pc = pc) (notServe : pc ≠ .serve) (notExited : pc ≠ .exited)
      (connected : d.connected = true) : False := by
    rcases kept connected with serves | ⟨exited, _⟩
    · exact notServe (before.symm.trans serves)
    · exact notExited (before.symm.trans exited)
  cases step with
  | noSocket before => exact fun connected => (early before nofun nofun connected).elim
  | socket before => exact fun connected => (early before nofun nofun connected).elim
  | receiveError before => exact fun connected => (early before nofun nofun connected).elim
  | receive _ _ before => exact fun connected => (early before nofun nofun connected).elim
  | noConnection before => exact fun connected => (early before nofun nofun connected).elim
  | connect => exact fun _ => .inl rfl
  | write _ _ serves => exact fun _ => .inl serves
  | serve serves => exact fun _ => .inl serves
  | exit _ receiving sequencing => exact fun _ => .inr ⟨rfl, receiving, sequencing⟩

/-- Servers that have connected keep to their clients, and the first thread of a
host is in its loop only when its server has connected. -/
structure World.Connected (w : World) (cfg : Setting) : Prop where
  kept : ∀ host, (w.daemons host).Kept
  inLoop : ∀ host, (w.threads host firstThread).stage = .loop →
    (w.daemons (cfg.dstIp host firstThread)).connected = true

section Connected

variable {cfg : Setting} {w : World} {events : List WorldEvent} {host server : UInt32} {idx : Fin numThreads}
  {windows : ClientWindows} {t : ThreadState} {act : ThreadAct} {d : DaemonState}

theorem World.Connected.thread (connected : w.Connected cfg) (inv : WorldInv cfg w)
    (step : BlockThreadStep (cfg.context host idx) (w.windows host) (w.threads host idx) act windows t)
    (accepted : ∀ server, act = .accept server →
      (w.daemons server).connected = true ∧ (w.daemons server).client = some (clientAddress host idx)) :
    (w.setThread host idx windows t).Connected cfg where
  kept := connected.kept
  inLoop other going := by
    rw [World.setThread_threads] at going
    rw [World.setThread_daemons]
    split at going
    · rename_i here
      obtain ⟨rfl, rfl⟩ := here
      rcases step.children_effect with ⟨_, before⟩ | ⟨server, accepts, _⟩ | ⟨server, _, rfl, _⟩
      · exact connected.inLoop other (before going)
      · obtain ⟨hasConnected, client⟩ := accepted server accepts
        rwa [(inv.taken client).2]
      · refine connected.inLoop other ?_
        cases step with
        | tickClose inLoop => exact inLoop
    · exact connected.inLoop other going

theorem World.Connected.setDaemon (connected : w.Connected cfg) (kept : d.Kept)
    (stays : (w.daemons server).connected = true → d.connected = true) : (w.setDaemon server d).Connected cfg where
  kept host := by
    rw [World.setDaemon_daemons]
    split
    · exact kept
    · exact connected.kept host
  inLoop host going := by
    rw [World.setDaemon_daemons]
    split
    · rename_i here
      exact stays (here ▸ connected.inLoop host going)
    · exact connected.inLoop host going

theorem worldRun_connected (run : WorldRun cfg events w) : w.Connected cfg := by
  refine Run.invariant (fun _ w => w.Connected cfg) ⟨fun host => nofun, fun host => nofun⟩ ?_ run
  intro events w e w' before connected step
  have inv := worldRun_inv before
  cases step with
  | silent step => exact connected.thread inv step nofun
  | send step =>
    have moved := connected.thread inv step nofun
    exact ⟨moved.kept, moved.inLoop⟩
  | accept step hasConnected client =>
    refine connected.thread inv step fun server same => ?_
    cases same
    exact ⟨hasConnected, client⟩
  | @read host idx windows t server incoming rest step unread =>
    exact (connected.thread inv step nofun).setDaemon (connected.kept server) id
  | close step => exact connected.thread inv step nofun
  | daemon step => exact connected.setDaemon (step.kept (connected.kept _)) step.effect.1
  | connect step => exact connected.setDaemon (step.kept (connected.kept _)) step.effect.1

end Connected

/-- As long as the receiving thread of its server is alive, a client in its loop
is never told to end. The server goes on serving, and the client can end for want
of packets only, with the partition in the file. -/
theorem server_outlasts_its_client {cfg : Setting} {host : UInt32} {events : List WorldEvent} {w : World}
    (sound : cfg.Sound host) (run : WorldRun cfg events w) (whole : ReadsWhole events)
    (inLoop : (w.threads host firstThread).stage = .loop)
    (alive : (w.daemons (cfg.dstIp host firstThread)).server.receiving.Alive) :
    (w.daemons (cfg.dstIp host firstThread)).pc = .serve ∧
      ((w.daemons (cfg.dstIp host firstThread)).server.sequencing.pc ≠ .fin ∧
        (w.daemons (cfg.dstIp host firstThread)).server.sequencing.pc ≠ .returned) ∧
      (w.windows host).done = false ∧
      ∀ exhausted, (w.threads host firstThread).client = .left exhausted → exhausted = true ∧
        (w.daemons (cfg.dstIp host firstThread)).file = some ((cfg.dstFilename host firstThread).take 19) ∧
        (w.daemons (cfg.dstIp host firstThread)).server.handle.fp.content = cfg.partition host firstThread := by
  have connected := worldRun_connected run
  have serves : (w.daemons (cfg.dstIp host firstThread)).pc = .serve := by
    rcases connected.kept _ (connected.inLoop host inLoop) with serves | ⟨_, receiving, _⟩
    · exact serves
    · exact absurd receiving alive.1
  obtain ⟨_, unfailed⟩ := (worldRun_transferInv (systemProperty_unfailed (segmentCount_lt sound.short)) sound run
    whole).taken ((worldRun_inv run).partner host inLoop)
  obtain ⟨k, unfailed⟩ := unfailed alive
  refine ⟨serves, unfailed.server.going, unfailed.going.1, fun exhausted left => ?_⟩
  cases exhausted with
  | false => exact absurd left unfailed.going.2
  | true =>
    obtain ⟨file, k', filled, system⟩ := worldRun_systemInv sound run whole inLoop
    exact ⟨rfl, file, system.whole_file sound.short left⟩

/-- Both packets have been saved and acknowledged: the server still waits for more. -/
theorem server_outlasts_its_client_two_packets : ∃ events w, WorldRun (plainSetting twoPackets) events w ∧
    (w.threads 0 firstThread).client = .left true ∧ (w.daemons 1).pc = .serve ∧
      ((w.daemons 1).server.sequencing.pc ≠ .fin ∧ (w.daemons 1).server.sequencing.pc ≠ .returned) ∧
      (w.windows 0).done = false ∧ (w.daemons 1).file = some [97] ∧
      (w.daemons 1).server.handle.fp.content = twoPackets := by
  obtain ⟨labels, w, run, whole, serving, completed⟩ := plainSetting_completes
  obtain ⟨serves, going, notDone, ends⟩ :=
    server_outlasts_its_client plainSetting_sound (tickRun run) whole serving.inLoop completed.alive
  obtain ⟨_, file, content⟩ := ends true completed.left
  exact ⟨_, w, tickRun run, completed.left, serves, going, notDone, file, content⟩

end UCP
