import UCP.Lib.Lists
import UCP.PartitionFile

namespace UCP

section Names

theorem snprintf_of_fits {size : Nat} {text : CString} (fits : text.length < size) : snprintf size text = text :=
  List.take_of_length_le (by omega)

/-- The names of the parts end in two digits. -/
theorem partitionPath_eq {i : Nat} (few : i < 100) :
    partitionPath i = partitionPrefix ++ [UInt8.ofNat (48 + i / 10), UInt8.ofNat (48 + i % 10)] := by
  revert i
  decide

theorem digit_lt {m n : Nat} (order : m < n) (small : n < 10) : UInt8.ofNat (48 + m) < UInt8.ofNat (48 + n) := by
  rw [UInt8.lt_iff_toNat_lt, UInt8.toNat_ofNat_of_lt' (show _ < 256 by omega),
    UInt8.toNat_ofNat_of_lt' (show _ < 256 by omega)]
  omega

/-- They come in the order of the parts. -/
theorem partitionPath_lt {i j : Nat} (order : i < j) (few : j < 100) : partitionPath i < partitionPath j := by
  rw [partitionPath_eq (order.trans few), partitionPath_eq few]
  refine List.append_left_lt (List.cons_lt_cons_iff.mpr ?_)
  rcases Nat.lt_or_eq_of_le (Nat.div_le_div_right order.le) with tens | tens
  · exact Or.inl (digit_lt tens (by omega))
  · exact Or.inr ⟨by rw [tens], List.cons_lt_cons_iff.mpr (Or.inl (digit_lt (by omega) (by omega)))⟩

theorem partitionPath_inj {i j : Nat} (fewI : i < 100) (fewJ : j < 100) (same : partitionPath i = partitionPath j) :
    i = j := by
  rcases Nat.lt_trichotomy i j with before | here | behind
  · have below := partitionPath_lt before fewJ
    rw [same] at below
    exact absurd below (List.lt_irrefl _)
  · exact here
  · have below := partitionPath_lt behind fewI
    rw [same] at below
    exact absurd below (List.lt_irrefl _)

/-- The names of the parts from `i` on. -/
def partitionPaths (i n : Nat) : List CString := (List.range' i n).map partitionPath

theorem mem_partitionPaths {i n : Nat} {name : CString} :
    name ∈ partitionPaths i n ↔ ∃ j, i ≤ j ∧ j < i + n ∧ partitionPath j = name := by
  rw [partitionPaths, List.mem_map]
  exact exists_congr fun j => by rw [List.mem_range'_1, and_assoc]

theorem partitionPaths_cons (i n : Nat) :
    partitionPaths i (n + 1) = partitionPath i :: partitionPaths (i + 1) n := by
  rw [partitionPaths, List.range'_succ, List.map_cons]
  rfl

theorem partitionPath_not_mem {i n : Nat} (few : i + 1 + n ≤ 100) : partitionPath i ∉ partitionPaths (i + 1) n := by
  intro member
  obtain ⟨j, after, within, same⟩ := mem_partitionPaths.mp member
  have : j = i := partitionPath_inj (by omega) (by omega) same
  omega

theorem partitionPaths_sorted {i n : Nat} (few : i + n ≤ 100) : (partitionPaths i n).Pairwise (· < ·) := by
  refine List.pairwise_map.mpr (List.Pairwise.imp_of_mem (fun {j k} _ memberK order => ?_) List.pairwise_lt_range')
  rw [List.mem_range'_1] at memberK
  exact partitionPath_lt order (by omega)

end Names

section Parts

variable {dir : Directory} {name : CString} {parts : List (List UInt8)} {i : Nat}

/-- The handles of the parts from `i` on. -/
def partitionHandles (i : Nat) : List (List UInt8) → List PartitionHandle
  | [] => []
  | part :: parts => ⟨partitionPath i, UInt8.ofNat i, openPartition part⟩ :: partitionHandles (i + 1) parts

theorem partitionHandles_filepath (i : Nat) (parts : List (List UInt8)) :
    (partitionHandles i parts).map (·.filepath) = partitionPaths i parts.length := by
  induction parts generalizing i with
  | nil => rfl
  | cons part parts ih =>
    rw [partitionHandles, List.map_cons, ih, List.length_cons, partitionPaths_cons]

theorem partitionHandles_handle (i : Nat) (parts : List (List UInt8)) :
    (partitionHandles i parts).map (·.handle) = parts.map openPartition := by
  induction parts generalizing i with
  | nil => rfl
  | cons part parts ih => rw [partitionHandles, List.map_cons, ih, List.map_cons]

theorem partitionHandles_partSize (i : Nat) (parts : List (List UInt8)) :
    (partitionHandles i parts).map (·.handle.partSize) = parts.map fun part => (openPartition part).partSize := by
  have sizes := congrArg (List.map (·.partSize)) (partitionHandles_handle i parts)
  rw [List.map_map, List.map_map] at sizes
  exact sizes

theorem lookup_writeParts_of_not_mem (outside : name ∉ partitionPaths i parts.length) :
    (dir.writeParts i parts).lookup name = dir.lookup name := by
  induction parts generalizing dir i with
  | nil => rfl
  | cons part parts ih =>
    rw [List.length_cons, partitionPaths_cons, List.mem_cons, not_or] at outside
    rw [Directory.writeParts, ih outside.2, Finmap.lookup_insert_of_ne _ outside.1]

/-- Each part is in the file of its name. -/
theorem lookup_writeParts (few : i + parts.length ≤ 100) {j : Nat} {part : List UInt8}
    (here : parts[j]? = some part) :
    (dir.writeParts i parts).lookup (partitionPath (i + j)) = some part := by
  induction parts generalizing dir i j with
  | nil => cases here
  | cons first parts ih =>
    rw [List.length_cons] at few
    cases j with
    | zero =>
      obtain rfl := Option.some.inj here
      rw [Directory.writeParts, Nat.add_zero, lookup_writeParts_of_not_mem (partitionPath_not_mem (by omega)),
        Finmap.lookup_insert]
    | succ j =>
      have rest : (Directory.writeParts (dir.insert (partitionPath i) first) (i + 1) parts).lookup
          (partitionPath (i + 1 + j)) = some part := ih (by omega) here
      rwa [show i + 1 + j = i + (j + 1) by omega] at rest

theorem openPartitions_eq
    (reads : ∀ j part, parts[j]? = some part → dir.lookup (partitionPath (i + j)) = some part) :
    openPartitions dir (fun _ => true) i parts.length = some (partitionHandles i parts) := by
  induction parts generalizing i with
  | nil => rfl
  | cons first parts ih =>
    have here : dir.lookup (partitionPath i) = some first := reads 0 first rfl
    have rest := ih (i := i + 1) fun j part at' => by
      rw [show i + 1 + j = i + (j + 1) by omega]
      exact reads (j + 1) part at'
    simp only [List.length_cons, openPartitions, here, rest, if_true, Option.map_some, partitionHandles]

/-- The files of these names hold the parts, one after the other. -/
theorem concat_partitionPaths
    (reads : ∀ j part, parts[j]? = some part → dir.lookup (partitionPath (i + j)) = some part) :
    dir.concat (partitionPaths i parts.length) = parts.flatten := by
  induction parts generalizing i with
  | nil => rfl
  | cons first parts ih =>
    have here : dir.lookup (partitionPath i) = some first := reads 0 first rfl
    have rest := ih (i := i + 1) fun j part at' => by
      rw [show i + 1 + j = i + (j + 1) by omega]
      exact reads (j + 1) part at'
    rw [Directory.concat] at rest
    rw [List.length_cons, partitionPaths_cons, Directory.concat, List.flatMap_cons, here, rest, List.flatten_cons]
    rfl

theorem lookup_release (handles : List PartitionHandle) :
    (fileIoPartitionRelease dir handles).lookup name =
      if name ∈ handles.map (·.filepath) then none else dir.lookup name := by
  induction handles generalizing dir with
  | nil => simp [fileIoPartitionRelease]
  | cons handle handles ih =>
    rw [fileIoPartitionRelease, ih, List.map_cons]
    by_cases later : name ∈ handles.map (·.filepath)
    · rw [if_pos later, if_pos (List.mem_cons_of_mem _ later)]
    rw [if_neg later]
    by_cases here : name = handle.filepath
    · rw [here, if_pos (List.mem_cons_self ..), Finmap.lookup_erase]
    · rw [if_neg (by simp only [List.mem_cons, not_or]; exact ⟨here, later⟩), Finmap.lookup_erase_ne here]

end Parts

section RoundTrip

variable {shell : Shell} {dir : Directory} {filepath outfile name : CString} {count : Nat}
  {parts : List (List UInt8)}

theorem mem_glob {namePrefix : CString} :
    name ∈ dir.glob namePrefix ↔ name ∈ dir ∧ namePrefix <+: name ∧ 47 ∉ name.drop namePrefix.length := by
  rw [Directory.glob, Finset.mem_sort, Finset.mem_filter, Finmap.mem_keys]

theorem glob_sorted (dir : Directory) (namePrefix : CString) : (dir.glob namePrefix).Pairwise (· < ·) := by
  have sorted : (dir.glob namePrefix).Pairwise (· ≤ ·) := Finset.pairwise_sort _ _
  have nodup : (dir.glob namePrefix).Nodup := Finset.sort_nodup _ _
  exact (sorted.and nodup).imp fun both => Std.lt_of_le_of_ne both.1 both.2

/-- The pattern takes the parts. -/
theorem partitionPath_matches {j : Nat} (few : j < 100) :
    partitionPrefix <+: partitionPath j ∧ 47 ∉ (partitionPath j).drop partitionPrefix.length := by
  rw [partitionPath_eq few, List.drop_left]
  refine ⟨List.prefix_append .., fun member => ?_⟩
  revert j
  decide

theorem fileIoPartitionFile_eq (splits : Splits shell dir filepath count parts) (few : count ≤ 100)
    (fits : (splitCommand count filepath).length < 255) :
    fileIoPartitionFile shell true (fun _ => true) dir filepath count =
      .ok (some (partitionHandles 0 parts), dir.writeParts 0 parts) := by
  obtain ⟨_, rfl, runs⟩ := splits
  have opens : openPartitions (dir.writeParts 0 parts) (fun _ => true) 0 parts.length =
      some (partitionHandles 0 parts) :=
    openPartitions_eq fun j part here => lookup_writeParts (by omega) here
  rw [fileIoPartitionFile, snprintf_of_fits fits, runs]
  simp only [Bool.and_self, if_true, opens]
  rfl

/-- A file of two bytes, and a shell that splits it into two parts and otherwise
merges all parts into one file. -/
def twoByteDirectory : Directory := Finmap.singleton (ascii "in") [1, 2]

def twoPartShell : Shell := fun command dir =>
  if command = splitCommand 2 (ascii "in") then some (true, dir.writeParts 0 [[1], [2]])
  else some (true, dir.insert (ascii "out") (dir.concat (dir.glob partitionPrefix)))

theorem twoPartShell_splits : Splits twoPartShell twoByteDirectory (ascii "in") 2 [[1], [2]] :=
  ⟨Finmap.lookup_singleton_eq, rfl, if_pos rfl⟩

theorem twoPartShell_concatenates : Concatenates twoPartShell partitionPrefix (ascii "out") :=
  fun _ _ _ => if_neg (by decide)

/-- Partitioning a file and releasing the handles leaves the directory as it was,
exactly when no file there had the name of a part. -/
theorem partition_release_restores_iff (splits : Splits shell dir filepath count parts) (few : count ≤ 100)
    (fits : (splitCommand count filepath).length < 255) :
    ∃ handles dir', fileIoPartitionFile shell true (fun _ => true) dir filepath count = .ok (some handles, dir') ∧
      handles.map (·.handle) = parts.map openPartition ∧
      (fileIoPartitionRelease dir' handles = dir ↔ ∀ name ∈ partitionPaths 0 count, name ∉ dir) := by
  refine ⟨_, _, fileIoPartitionFile_eq splits few fits, partitionHandles_handle 0 parts, ?_⟩
  obtain ⟨_, rfl, _⟩ := splits
  constructor
  · intro restored name member
    rw [← restored, ← Finmap.lookup_eq_none, lookup_release, partitionHandles_filepath, if_pos member]
  · intro free
    refine Finmap.ext_lookup fun name => ?_
    rw [lookup_release, partitionHandles_filepath]
    by_cases member : name ∈ partitionPaths 0 parts.length
    · rw [if_pos member, Finmap.lookup_eq_none.mpr (free name member)]
    · rw [if_neg member, lookup_writeParts_of_not_mem member]

theorem partition_release_restores_iff_two_parts : ∃ handles dir',
    fileIoPartitionFile twoPartShell true (fun _ => true) twoByteDirectory (ascii "in") 2 =
    .ok (some handles, dir') ∧
      handles.map (·.handle) = [openPartition [1], openPartition [2]] ∧
      (fileIoPartitionRelease dir' handles = twoByteDirectory ↔
        ∀ name ∈ partitionPaths 0 2, name ∉ twoByteDirectory) :=
  partition_release_restores_iff twoPartShell_splits (by decide) (by decide)

/-- A file that is none of the parts, and that the pattern for them takes all the
same. -/
def Leftover (outfile : CString) (count : Nat) (name : CString) : Prop :=
  name ≠ outfile ∧ partitionPrefix <+: name ∧ 47 ∉ name.drop partitionPrefix.length ∧ name ∉ partitionPaths 0 count

/-- The merge reads what is there once an old output file is gone. -/
theorem fileIoMergeFile_eq (concatenates : Concatenates shell partitionPrefix outfile)
    (fits : (catCommand partitionPrefix outfile).length < 255) (first : partitionPath 0 ∈ dir)
    (apart : partitionPath 0 ≠ outfile) :
    ∃ clean : Directory, fileIoMergeFile shell dir partitionPrefix outfile =
        .ok (true, clean.insert outfile (clean.concat (clean.glob partitionPrefix))) ∧
      outfile ∉ clean ∧ ∀ name, name ≠ outfile → clean.lookup name = dir.lookup name := by
  have matches' := partitionPath_matches (show 0 < 100 by decide)
  rw [fileIoMergeFile, snprintf_of_fits fits]
  by_cases old : outfile ∈ dir
  · have kept : partitionPath 0 ∈ dir.erase outfile := Finmap.mem_erase.mpr ⟨apart, first⟩
    refine ⟨dir.erase outfile, ?_, Finmap.notMem_erase_self, fun name other => Finmap.lookup_erase_ne other⟩
    rw [if_pos old, concatenates _ (List.ne_nil_of_mem (mem_glob.mpr ⟨kept, matches'⟩)) Finmap.notMem_erase_self]
    rfl
  · refine ⟨dir, ?_, old, fun name _ => rfl⟩
    rw [if_neg old, concatenates _ (List.ne_nil_of_mem (mem_glob.mpr ⟨first, matches'⟩)) old]
    rfl

/-- Merging the parts gives the file again, exactly when all leftovers are empty. -/
theorem partition_merge_restores_iff (splits : Splits shell dir filepath count parts)
    (concatenates : Concatenates shell partitionPrefix outfile) (positive : 0 < count) (few : count ≤ 100)
    (fits : (splitCommand count filepath).length < 255)
    (fitsOut : (catCommand partitionPrefix outfile).length < 255)
    (apart : outfile ∉ partitionPaths 0 count) :
    ∃ handles dir' dir'',
      fileIoPartitionFile shell true (fun _ => true) dir filepath count = .ok (some handles, dir') ∧
      fileIoMergeFile shell dir' partitionPrefix outfile = .ok (true, dir'') ∧
      (dir''.lookup outfile = dir.lookup filepath ↔
        ∀ name, Leftover outfile count name → ∀ bytes, dir.lookup name = some bytes → bytes = []) := by
  have partitioned := fileIoPartitionFile_eq splits few fits
  obtain ⟨whole, rfl, _⟩ := splits
  have reads : ∀ j part, parts[j]? = some part →
      (dir.writeParts 0 parts).lookup (partitionPath (0 + j)) = some part :=
    fun j part here => lookup_writeParts (by omega) here
  have first : partitionPath 0 ∈ dir.writeParts 0 parts :=
    Finmap.mem_of_lookup_eq_some (reads 0 parts[0] (List.getElem?_eq_getElem positive))
  have other : ∀ j, j < parts.length → partitionPath j ≠ outfile := fun j within same =>
    apart (mem_partitionPaths.mpr ⟨j, Nat.zero_le j, by omega, same⟩)
  obtain ⟨clean, merged, absent, lookups⟩ := fileIoMergeFile_eq concatenates fitsOut first (other 0 positive)
  refine ⟨_, _, _, partitioned, merged, ?_⟩
  have reads : ∀ j part, parts[j]? = some part → clean.lookup (partitionPath (0 + j)) = some part := by
    intro j part here
    obtain ⟨within, _⟩ := List.getElem?_eq_some_iff.mp here
    rw [Nat.zero_add, lookups _ (other j within), ← reads j part here, Nat.zero_add]
  have taken : (clean.glob partitionPrefix).filter (· ∈ partitionPaths 0 parts.length) =
      partitionPaths 0 parts.length := by
    refine List.Pairwise.eq_of_mem_iff ((glob_sorted clean _).filter _) (partitionPaths_sorted (by omega)) fun name => ?_
    rw [List.mem_filter, decide_eq_true_iff, and_iff_right_iff_imp]
    intro member
    obtain ⟨j, _, within, rfl⟩ := mem_partitionPaths.mp member
    have inside : j < parts.length := by omega
    have here := reads j parts[j] (List.getElem?_eq_getElem inside)
    rw [Nat.zero_add] at here
    exact mem_glob.mpr ⟨Finmap.mem_of_lookup_eq_some here, partitionPath_matches (by omega)⟩
  have content : ((clean.glob partitionPrefix).filter (· ∈ partitionPaths 0 parts.length)).flatMap
      (fun name => (clean.lookup name).getD []) = parts.flatten := by
    rw [taken]
    exact concat_partitionPaths reads
  rw [Finmap.lookup_insert, whole, Option.some.injEq, ← content, eq_comm, Directory.concat, List.flatMap_filter_iff]
  constructor
  · rintro nothing name ⟨notOut, front, flat, outside⟩ bytes here
    have same : clean.lookup name = some bytes := by
      rw [lookups name notOut, lookup_writeParts_of_not_mem outside, here]
    have member := mem_glob.mpr ⟨Finmap.mem_of_lookup_eq_some same, front, flat⟩
    have empty := nothing name member (decide_eq_false outside)
    rwa [same] at empty
  · intro empty name member outside
    obtain ⟨inClean, front, flat⟩ := mem_glob.mp member
    obtain ⟨bytes, here⟩ := Finmap.mem_iff.mp inClean
    have notOut : name ≠ outfile := fun same => absent (same ▸ inClean)
    have outside : name ∉ partitionPaths 0 parts.length := of_decide_eq_false outside
    rw [here]
    refine empty name ⟨notOut, front, flat, outside⟩ bytes ?_
    rw [← here, lookups name notOut, lookup_writeParts_of_not_mem outside]

theorem partition_merge_restores_iff_two_parts : ∃ handles dir' dir'',
    fileIoPartitionFile twoPartShell true (fun _ => true) twoByteDirectory (ascii "in") 2 =
    .ok (some handles, dir') ∧
      fileIoMergeFile twoPartShell dir' partitionPrefix (ascii "out") = .ok (true, dir'') ∧
      (dir''.lookup (ascii "out") = twoByteDirectory.lookup (ascii "in") ↔
        ∀ name, Leftover (ascii "out") 2 name → ∀ bytes, twoByteDirectory.lookup name = some bytes → bytes = []) :=
  partition_merge_restores_iff twoPartShell_splits twoPartShell_concatenates (by decide) (by decide) (by decide)
    (by decide) (by decide)

end RoundTrip

end UCP
