import UCP.CommandLine
import UCP.PartitionRoundTrip
import UCP.Statistics
import UCP.WorldProgress

namespace UCP

/-- How the calls of libc in `main` of the client turn out. -/
structure LibcCalls where
  strdupIp : Bool
  strdupFilename : Bool
  calloc : Bool
  fopen : CString → Bool

/-- What `main` of the client starts its threads on. -/
structure ClientStart where
  dstIp : CString
  dstFilename : CString
  handles : List PartitionHandle

/-- `main` of the client up to its threads, with the directory that it leaves, or
none when it prints its usage. Threads on handles that are null crash. -/
def clientMain (shell : Shell) (libc : LibcCalls) (dir : Directory) (argv : List CString) :
    Except NullFault (Option (ClientStart × Directory)) := do
  let commandLine ← clientCommandLine libc.strdupIp libc.strdupFilename argv
  match commandLine with
  | .usage => pure none
  | .transfer src dstIp dstFilename => do
    let (handles, dir) ← fileIoPartitionFile shell libc.calloc libc.fopen dir src numThreads
    match handles with
    | none => .error .handles
    | some handles => pure (some (⟨dstIp, dstFilename, handles⟩, dir))

section Start

variable {shell : Shell} {libc : LibcCalls} {dir dir' : Directory} {argv : List CString} {src filepath : CString}
  {start : ClientStart} {parts : List (List UInt8)} {count : Nat}

theorem strdup_eq_some {allocates : Bool} {text : Option CString} {copy : CString}
    (copied : strdup allocates text = .ok (some copy)) : text = some copy := by
  cases text with
  | none => cases copied
  | some text =>
    cases allocates with
    | false => cases copied
    | true =>
      cases copied
      rfl

/-- Where a transfer is read, both copies have been made. -/
theorem clientCommandLine_fields {ip filename : Bool} {dstIp dstFilename : CString}
    (read : clientCommandLine ip filename argv = .ok (.transfer src dstIp dstFilename)) :
    ∃ program dst rest, argv = [program, src, dst] ∧ fields 58 dst = dstIp :: dstFilename :: rest := by
  rcases argv with _ | ⟨program, _ | ⟨src', _ | ⟨dst, _ | ⟨_, _⟩⟩⟩⟩
  · cases read
  · cases read
  · cases read
  · obtain ⟨first, left⟩ := strtok_spec 58 dst
    have second := (strtok_spec 58 (strtok 58 dst).2).1
    simp only [clientCommandLine] at read
    obtain ⟨ipCopy, copiedIp, read⟩ := Except.bind_eq_ok.mp read
    obtain ⟨nameCopy, copiedName, read⟩ := Except.bind_eq_ok.mp read
    cases ipCopy with
    | none => cases read
    | some ipCopy =>
      cases nameCopy with
      | none => cases read
      | some nameCopy =>
        cases read
        rw [strdup_eq_some copiedIp] at first
        rw [strdup_eq_some copiedName, left] at second
        obtain ⟨tokens, found⟩ := List.head?_eq_some_iff.mp first.symm
        rw [found] at second
        obtain ⟨rest, found'⟩ := List.head?_eq_some_iff.mp second.symm
        rw [List.tail_cons] at found'
        exact ⟨program, dst, rest, rfl, found' ▸ found⟩
  · cases read

theorem openPartitions_some {opens : CString → Bool} {i n : Nat} {handles : List PartitionHandle}
    (opened : openPartitions dir opens i n = some handles) :
    openPartitions dir (fun _ => true) i n = some handles := by
  induction n generalizing i handles with
  | zero => exact opened
  | succ n ih =>
    simp only [openPartitions] at opened ⊢
    cases here : dir.lookup (partitionPath i) with
    | none => simp only [here, reduceCtorEq] at opened
    | some content =>
      simp only [here, if_true] at opened ⊢
      split at opened
      · obtain ⟨later, rest, same⟩ := Option.map_eq_some_iff.mp opened
        rw [ih rest, Option.map_some, same]
      · cases opened

/-- A file that has been partitioned has left the handles of its parts. -/
theorem fileIoPartitionFile_some {allocates : Bool} {opens : CString → Bool} {handles : List PartitionHandle}
    (splits : Splits shell dir filepath count parts) (few : count ≤ 100)
    (fits : (splitCommand count filepath).length < 255)
    (partitioned : fileIoPartitionFile shell allocates opens dir filepath count = .ok (some handles, dir')) :
    handles = partitionHandles 0 parts ∧ dir' = dir.writeParts 0 parts := by
  have all := fileIoPartitionFile_eq splits few fits
  obtain ⟨_, _, runs⟩ := splits
  simp only [fileIoPartitionFile, snprintf_of_fits fits, runs, Bool.true_and, if_true] at partitioned all
  cases allocates with
  | false => cases partitioned
  | true =>
    simp only [if_true, pure, Except.pure, Except.ok.injEq, Prod.mk.injEq] at partitioned all
    obtain ⟨opened, rfl⟩ := partitioned
    exact ⟨Option.some.inj ((openPartitions_some opened).symm.trans all.1), rfl⟩

/-- What the threads are started on comes from the arguments and the parts. -/
theorem clientMain_some (splits : Splits shell dir src numThreads parts)
    (fits : (splitCommand numThreads src).length < 255) (named : argv[1]? = some src)
    (started : clientMain shell libc dir argv = .ok (some (start, dir'))) :
    start.handles = partitionHandles 0 parts ∧ dir' = dir.writeParts 0 parts ∧
      ∃ program dst rest, argv = [program, src, dst] ∧
      fields 58 dst = start.dstIp :: start.dstFilename :: rest := by
  obtain ⟨commandLine, read, threads⟩ := Except.bind_eq_ok.mp started
  cases commandLine with
  | usage => cases threads
  | transfer src' dstIp dstFilename =>
    obtain ⟨program, dst, rest, rfl, found⟩ := clientCommandLine_fields read
    obtain rfl : src' = src := Option.some.inj named
    dsimp only at threads
    obtain ⟨⟨handles, dir''⟩, partitioned, threads⟩ := Except.bind_eq_ok.mp threads
    cases handles with
    | none => cases threads
    | some handles =>
      cases threads
      obtain ⟨same, left⟩ := fileIoPartitionFile_some splits (by decide) fits partitioned
      exact ⟨same, left, program, dst, rest, rfl, found⟩

theorem clientMain_starts {program dst dstIp dstFilename : CString} {rest : List CString}
    (splits : Splits shell dir src numThreads parts) (fits : (splitCommand numThreads src).length < 255)
    (found : fields 58 dst = dstIp :: dstFilename :: rest) :
    clientMain shell ⟨true, true, true, fun _ => true⟩ dir [program, src, dst] =
      .ok (some (⟨dstIp, dstFilename, partitionHandles 0 parts⟩, dir.writeParts 0 parts)) := by
  have partitioned := fileIoPartitionFile_eq splits (by decide) fits
  rw [clientMain, clientCommandLine_transfer found]
  simp only [bind, Except.bind, partitioned]
  rfl

/-- A file of 91750 bytes, and a shell that splits it into ten parts of two packets. -/
def tenParts : List (List UInt8) := List.replicate numThreads twoPackets

def tenPartDirectory : Directory := Finmap.singleton (ascii "in") tenParts.flatten

def tenPartShell : Shell := fun _ dir => some (true, dir.writeParts 0 tenParts)

theorem tenPartShell_splits : Splits tenPartShell tenPartDirectory (ascii "in") numThreads tenParts :=
  ⟨Finmap.lookup_singleton_eq, List.length_replicate, rfl⟩

def tenPartStart : ClientStart := ⟨ascii "1.0.0.0", ascii "a", partitionHandles 0 tenParts⟩

def tenPartArguments : List CString := [ascii "ucp_client", ascii "in", ascii "1.0.0.0:a"]

theorem tenPart_started :
    clientMain tenPartShell ⟨true, true, true, fun _ => true⟩ tenPartDirectory tenPartArguments =
    .ok (some (tenPartStart, tenPartDirectory.writeParts 0 tenParts)) :=
  clientMain_starts tenPartShell_splits (by decide)
    (show fields 58 (ascii "1.0.0.0:a") = [ascii "1.0.0.0", ascii "a"] by decide)

end Start

/-- The threads of the client on a host work on what `main` has started them on;
`inetAddr` is `inet_addr`. -/
structure Setting.Started (cfg : Setting) (host : UInt32) (inetAddr : CString → UInt32)
    (start : ClientStart) : Prop where
  dstIp : cfg.dstIp host firstThread = inetAddr start.dstIp
  dstFilename : cfg.dstFilename host firstThread = start.dstFilename
  handles : ∀ idx : Fin numThreads,
    start.handles[idx.val]?.map (·.handle) = some (openPartition (cfg.partition host idx))

section Transfer

variable {shell : Shell} {libc : LibcCalls} {dir dir' : Directory} {argv : List CString} {src : CString}
  {start : ClientStart} {parts : List (List UInt8)} {cfg : Setting} {host : UInt32} {inetAddr : CString → UInt32}
  {events : List WorldEvent} {w : World}

theorem Setting.Started.parts_getElem? (startedOn : cfg.Started host inetAddr start)
    (same : start.handles = partitionHandles 0 parts) (idx : Fin numThreads) :
    parts[idx.val]? = some (cfg.partition host idx) := by
  have handle := startedOn.handles idx
  rw [← List.getElem?_map, same, partitionHandles_handle, List.getElem?_map] at handle
  obtain ⟨part, here, opened⟩ := Option.map_eq_some_iff.mp handle
  rw [here, show part = cfg.partition host idx from congrArg (·.fp.content) opened]

theorem Setting.Started.parts_eq (startedOn : cfg.Started host inetAddr start)
    (same : start.handles = partitionHandles 0 parts) : parts = cfg.partition host firstThread :: parts.tail := by
  have first := startedOn.parts_getElem? same firstThread
  cases parts with
  | nil => cases first
  | cons part parts =>
    cases first
    rfl

/-- What a client delivers to its server, once its first thread has run out of
packets, is the first part of the file. It is the file only when the other parts
are empty. -/
theorem client_delivers_first_part (splits : Splits shell dir src numThreads parts)
    (fits : (splitCommand numThreads src).length < 255) (strings : ∀ arg ∈ argv, 0 ∉ arg)
    (named : argv[1]? = some src)
    (started : clientMain shell libc dir argv = .ok (some (start, dir')))
    (startedOn : cfg.Started host inetAddr start)
    (short : (cfg.partition host firstThread).length < 2 ^ 32)
    (fopen : (cfg.disk (inetAddr start.dstIp)).fopen = true)
    (writes : ∀ k, udpPacketDataSize ≤ (cfg.disk (inetAddr start.dstIp)).accepts k)
    (run : WorldRun cfg events w) (whole : ReadsWhole events)
    (left : (w.threads host firstThread).client = .left true) :
    (w.daemons (inetAddr start.dstIp)).file = some (start.dstFilename.take 19) ∧
      parts.head? = some (w.daemons (inetAddr start.dstIp)).server.handle.fp.content ∧
      (dir.lookup src = some (w.daemons (inetAddr start.dstIp)).server.handle.fp.content ↔
        ∀ part ∈ parts.tail, part = []) := by
  obtain ⟨handles, -, program, dst, rest, rfl, found⟩ := clientMain_some splits fits named started
  have isField : start.dstFilename ∈ fields 58 dst := by
    rw [found]
    exact List.mem_cons_of_mem _ (List.mem_cons_self ..)
  have free : 0 ∉ start.dstFilename := fun zero => strings dst (by simp) ((mem_fields isField).2.2 zero)
  rw [← startedOn.dstIp] at fopen writes ⊢
  rw [← startedOn.dstFilename] at free ⊢
  have inLoop := (worldRun_inv run).in_loop_of_left left
  obtain ⟨file, k, filled, system⟩ := worldRun_systemInv ⟨short, free, fopen, writes⟩ run whole inLoop
  have content : (w.daemons (cfg.dstIp host firstThread)).server.handle.fp.content =
      cfg.partition host firstThread :=
    system.whole_file short left
  refine ⟨file, ?_, ?_⟩
  · rw [content, startedOn.parts_eq handles, List.head?_cons]
  · rw [content, splits.1, startedOn.parts_eq handles, List.flatten_cons, List.tail_cons, Option.some.injEq,
      List.append_right_eq_self, List.flatten_eq_nil_iff]

theorem tenPart_startedOn : (plainSetting twoPackets).Started 0 (fun _ => 1) tenPartStart where
  dstIp := rfl
  dstFilename := rfl
  handles idx := by
    rw [← List.getElem?_map, tenPartStart, partitionHandles_handle, List.getElem?_map, tenParts,
      List.getElem?_replicate, if_pos idx.isLt]
    rfl

/-- The server has the first of ten parts, and so it has not got the file. -/
theorem client_delivers_first_part_ten_parts : ∃ events w, WorldRun (plainSetting twoPackets) events w ∧
    (w.threads 0 firstThread).client = .left true ∧ (w.daemons 1).file = some (ascii "a") ∧
      (w.daemons 1).server.handle.fp.content = twoPackets ∧
      tenPartDirectory.lookup (ascii "in") ≠ some (w.daemons 1).server.handle.fp.content := by
  obtain ⟨labels, w, run, whole, _, completed⟩ := plainSetting_completes
  obtain ⟨file, first, same⟩ :=
    client_delivers_first_part tenPartShell_splits (by decide) (by decide) rfl tenPart_started
      tenPart_startedOn plainSetting_sound.short rfl (fun _ => Nat.le_refl _) (tickRun run) whole completed.left
  refine ⟨_, w, tickRun run, completed.left, file, (Option.some.inj first).symm, fun delivered => ?_⟩
  have second : twoPackets ∈ tenParts.tail := by
    rw [tenParts, List.tail_replicate]
    exact List.mem_replicate.mpr ⟨by decide, rfl⟩
  cases same.mp delivered twoPackets second

/-- Whatever becomes of its threads, the client counts the whole file as
transferred. Nothing but the first part is ever sent, and `main` comes to its
statistics only when all other threads have failed. -/
theorem client_reports_whole_file (splits : Splits shell dir src numThreads parts)
    (fits : (splitCommand numThreads src).length < 255) (named : argv[1]? = some src)
    (started : clientMain shell libc dir argv = .ok (some (start, dir')))
    (startedOn : cfg.Started host inetAddr start)
    (run : WorldRun cfg events w) :
    (∀ idx datagram, datagram ∈ w.network → datagram.source = clientAddress host idx →
      typeField datagram.bytes = ucpPacketTypeData →
      ∃ part, parts.head? = some part ∧ SegmentDatagram part datagram.bytes) ∧
    ((∀ idx, (w.threads host idx).Returned) → ∀ idx, idx ≠ firstThread → (w.threads host idx).stage = .failed) ∧
    ∀ ctx ctxs, (ctx :: ctxs).map (·.partSize) = start.handles.map (·.handle.partSize) →
      (dir.lookup src).map List.length = some (parts.flatten.length) ∧
      ((reportStatistics ctx ctxs).1.toNat = parts.flatten.length ↔ ∀ part ∈ parts, part.length < 2 ^ 32) := by
  obtain ⟨handles, -⟩ := clientMain_some splits fits named started
  have inv := worldRun_inv run
  refine ⟨fun idx datagram member source isData => ?_, fun returned idx other => ?_, fun ctx ctxs sizes => ?_⟩
  · obtain ⟨host', idx', source', -, metadata | ⟨rfl, -, segment⟩⟩ := inv.network datagram member
    · rw [metadata.typeField_eq] at isData
      exact absurd isData (by decide)
    · obtain ⟨rfl, -⟩ := clientAddress_inj (source.symm.trans source')
      exact ⟨_, by rw [startedOn.parts_eq handles, List.head?_cons], segment⟩
  · rcases returned idx with failed | ⟨inLoop, -⟩
    · exact failed
    · exact absurd (inv.first host idx inLoop) other
  · rw [handles, partitionHandles_partSize] at sizes
    have few := congrArg List.length sizes
    rw [List.length_map, List.length_map, splits.2.1] at few
    exact ⟨by rw [splits.1]; rfl, totalBytes_parts_iff (few ▸ by decide) sizes⟩

/-- These threads of a host fail before anything else happens. -/
theorem worldRun_fails (cfg : Setting) (host : UInt32) {idxs : List (Fin numThreads)} (distinct : idxs.Nodup) :
    ∃ labels w, Run (TickStep cfg) (worldStart cfg) labels w ∧ ReadsWhole labels.flatten ∧
      w.windows host = clientWindowsInit ∧
      w.daemons = (worldStart cfg).daemons ∧ (∀ idx ∈ idxs, (w.threads host idx).stage = .failed) ∧
      ∀ idx ∉ idxs, w.threads host idx = threadStart (cfg.partition host idx) := by
  induction idxs with
  | nil =>
    exact ⟨[], worldStart cfg, .start, fun _ _ member => absurd member List.not_mem_nil, rfl, rfl,
      fun _ member => absurd member List.not_mem_nil, fun _ _ => rfl⟩
  | cons idx idxs ih =>
    obtain ⟨fresh, distinct⟩ := List.nodup_cons.mp distinct
    obtain ⟨labels, w, run, whole, windows, daemons, failed, untouched⟩ := ih distinct
    obtain ⟨w', run', thread, windows', daemons', _, same⟩ :=
      tickRun_silent run (untouched idx fresh) windows (.noSocket rfl)
    refine ⟨_, w', run', ?_, windows', daemons'.trans daemons, fun other member => ?_, fun other outside => ?_⟩
    · rw [List.flatten_append, List.flatten_singleton]
      exact whole.append readsWhole_other
    · by_cases here : other = idx
      · rw [here, thread]
      · rw [same other here]
        exact failed other ((List.mem_cons.mp member).resolve_left here)
    · rw [List.mem_cons, not_or] at outside
      rw [same other outside.1]
      exact untouched other outside.2

/-- The other nine threads have failed and the first one has sent its part: `main`
comes to its statistics. -/
theorem client_reports_whole_file_ten_parts : ∃ events w, WorldRun (plainSetting twoPackets) events w ∧
    (∀ idx, (w.threads 0 idx).Returned) ∧ (∀ idx, idx ≠ firstThread → (w.threads 0 idx).stage = .failed) ∧
    (∃ datagram ∈ w.network, datagram.source = clientAddress 0 firstThread ∧
      SegmentDatagram twoPackets datagram.bytes) ∧
    let report : ThreadReport := ⟨⟨1, 0⟩, ⟨2, 0⟩, 9175⟩
    (tenPartDirectory.lookup (ascii "in")).map List.length = some tenParts.flatten.length ∧
      (reportStatistics report (List.replicate 9 report)).1.toNat = tenParts.flatten.length := by
  have others : (List.finRange numThreads).erase firstThread |>.Nodup := (List.nodup_finRange _).erase _
  have notFirst : firstThread ∉ (List.finRange numThreads).erase firstThread :=
    (List.nodup_finRange _).not_mem_erase
  obtain ⟨early, w1, run1, whole1, windows, daemons, failed, untouched⟩ :=
    worldRun_fails (plainSetting twoPackets) 0 others
  obtain ⟨more, w, goesOn, _, serving, completed⟩ := worldRun_transfers plainSetting_sound (tickRun run1) whole1
    (untouched firstThread notFirst) windows (congrFun daemons 1)
  have run : WorldRun (plainSetting twoPackets) _ w := tickRun (run1.append goesOn)
  have returned : ∀ idx, (w.threads 0 idx).Returned := by
    intro idx
    by_cases first : idx = firstThread
    · rw [first]
      exact .inr ⟨serving.inLoop, true, completed.left⟩
    · have hasFailed := failed idx ((List.mem_erase_of_ne first).mpr (List.mem_finRange idx))
      rw [worldRun_stuck (tickRun run1) (tickRun goesOn) first (.inl hasFailed)]
      exact .inl hasFailed
  obtain ⟨data, joins, counts⟩ := client_reports_whole_file tenPartShell_splits (by decide) rfl tenPart_started
    tenPart_startedOn run
  have within : 0 < segmentCount twoPackets := by rw [segmentCount_twoPackets]; exact Nat.two_pos
  obtain ⟨datagram, sent, bytes⟩ := List.mem_map.mp (completed.posted 0 within)
  obtain ⟨member, isData⟩ := List.mem_filter.mp sent
  rw [Bool.and_eq_true, decide_eq_true_eq, beq_iff_eq] at isData
  obtain ⟨part, first, segment⟩ := data firstThread datagram member isData.1 isData.2
  obtain rfl : part = twoPackets := (Option.some.inj first).symm
  have size : (openPartition twoPackets).partSize = 9175 := by
    change UInt32.ofNat twoPackets.length = 9175
    rw [twoPackets, List.length_replicate]
    rfl
  have sizes : tenPartStart.handles.map (·.handle.partSize) = List.replicate 10 9175 := by
    rw [tenPartStart, partitionHandles_partSize, tenParts, List.map_replicate, size]
    rfl
  obtain ⟨whole, counted⟩ :=
    counts ⟨⟨1, 0⟩, ⟨2, 0⟩, 9175⟩ (List.replicate 9 ⟨⟨1, 0⟩, ⟨2, 0⟩, 9175⟩) (by rw [sizes]; rfl)
  refine ⟨_, w, run, returned, joins returned, ⟨datagram, member, isData.1, segment⟩, whole,
    counted.mpr fun part member => ?_⟩
  rw [List.eq_of_mem_replicate member]
  exact plainSetting_sound.short

end Transfer

end UCP
