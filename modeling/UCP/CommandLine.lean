import Mathlib.Data.List.TakeWhile
import UCP.PartitionFile

namespace UCP

/-- `strtok` with one delimiter: the token that it returns, and what it has left
for the next call. -/
def strtok (delim : UInt8) (text : CString) : Option CString × CString :=
  let text := text.dropWhile (· == delim)
  if text = [] then (none, [])
  else (some (text.takeWhile (· != delim)), (text.dropWhile (· != delim)).drop 1)

def strdup (allocates : Bool) : Option CString → Except NullFault (Option CString)
  | none => .error .string
  | some text => pure (if allocates then some text else none)

/-- What `main` of the client makes of its arguments. -/
inductive CommandLine
  | usage
  | transfer (src dstIp dstFilename : CString)
  deriving DecidableEq, Repr

/-- `main` of the client as far as it reads its arguments, the last of them at its
colons; `ip` and `filename` tell how the calls of `strdup` turn out. -/
def clientCommandLine (ip filename : Bool) : List CString → Except NullFault CommandLine
  | [_, src, dst] => do
    let (token, rest) := strtok 58 dst
    let dstIp ← strdup ip token
    let dstFilename ← strdup filename (strtok 58 rest).1
    pure (dstIp.elim .usage fun dstIp => dstFilename.elim .usage (.transfer src dstIp))
  | _ => pure .usage

/-- What stands between the delimiters, where something does. -/
def fields (delim : UInt8) (text : CString) : List CString := (text.splitOn delim).filter (· ≠ [])

section Fields

variable {delim b : UInt8} {text token rest field : CString}

theorem fields_cons_delim : fields delim (delim :: text) = fields delim text := by
  rw [fields, List.splitOn_cons_eq_if_modifyHead, if_pos (BEq.refl _)]
  rfl

theorem fields_token (free : delim ∉ token) (nonempty : token ≠ []) : fields delim token = [token] := by
  rw [fields, List.splitOn_eq_singleton free, List.filter_singleton, decide_eq_true nonempty]
  rfl

theorem fields_token_append (free : delim ∉ token) (nonempty : token ≠ []) :
    fields delim (token ++ delim :: rest) = token :: fields delim rest := by
  rw [fields, List.splitOn_append_cons_self_of_not_mem free, List.filter_cons, decide_eq_true nonempty]
  rfl

theorem mem_splitOn (member : field ∈ text.splitOn delim) : delim ∉ field ∧ field ⊆ text := by
  induction text generalizing field with
  | nil =>
    rw [List.splitOn_nil, List.mem_singleton] at member
    rw [member]
    exact ⟨List.not_mem_nil, List.nil_subset _⟩
  | cons b text ih =>
    rw [List.splitOn_cons_eq_if_modifyHead] at member
    by_cases same : (b == delim) = true
    · rw [if_pos same] at member
      rcases List.mem_cons.mp member with rfl | later
      · exact ⟨List.not_mem_nil, List.nil_subset _⟩
      · exact ⟨(ih later).1, List.subset_cons_of_subset b (ih later).2⟩
    · rw [if_neg same] at member
      obtain ⟨head, tail, split⟩ := List.exists_cons_of_ne_nil (List.splitOn_ne_nil delim text)
      rw [split, List.modifyHead_cons] at member
      rcases List.mem_cons.mp member with rfl | later
      · obtain ⟨free, within⟩ := ih (split ▸ List.mem_cons_self ..)
        rw [List.mem_cons, not_or]
        exact ⟨⟨fun first => same (beq_iff_eq.mpr first.symm), free⟩, List.cons_subset_cons b within⟩
      · obtain ⟨free, within⟩ := ih (split ▸ List.mem_cons_of_mem _ later)
        exact ⟨free, List.subset_cons_of_subset b within⟩

theorem mem_fields (member : field ∈ fields delim text) : field ≠ [] ∧ delim ∉ field ∧ field ⊆ text := by
  rw [fields, List.mem_filter, decide_eq_true_iff] at member
  exact ⟨member.2, mem_splitOn member.1⟩

theorem strtok_cons_delim : strtok delim (delim :: text) = strtok delim text := by
  simp only [strtok, List.dropWhile_cons, beq_self_eq_true, if_true]

theorem strtok_cons (start : b ≠ delim) : strtok delim (b :: text) =
    (some ((b :: text).takeWhile (· != delim)), ((b :: text).dropWhile (· != delim)).drop 1) := by
  have skips : (b :: text).dropWhile (· == delim) = b :: text := by
    rw [List.dropWhile_cons, if_neg (by simpa using start)]
  simp only [strtok, skips, reduceCtorEq, if_false]

theorem strtok_token (free : delim ∉ b :: token) : strtok delim (b :: token) = (some (b :: token), []) := by
  have others : ∀ x ∈ b :: token, (x != delim) = true :=
    fun x member => bne_iff_ne.mpr fun same => free (same ▸ member)
  have start : b ≠ delim := fun same => free (same ▸ List.mem_cons_self ..)
  rw [strtok_cons start, List.takeWhile_eq_self_iff.mpr others, List.dropWhile_eq_nil_iff.mpr others]
  rfl

theorem strtok_token_append (free : delim ∉ b :: token) :
    strtok delim (b :: token ++ delim :: rest) = (some (b :: token), rest) := by
  have others : ∀ x ∈ b :: token, (x != delim) = true :=
    fun x member => bne_iff_ne.mpr fun same => free (same ▸ member)
  have ends : (delim != delim) = false := bne_self_eq_false ..
  have start : b ≠ delim := fun same => free (same ▸ List.mem_cons_self ..)
  rw [List.cons_append, strtok_cons start, ← List.cons_append, List.takeWhile_append_of_pos others,
    List.dropWhile_append_of_pos others, List.takeWhile_cons, List.dropWhile_cons, ends]
  simp

/-- Calls of `strtok` give the fields one by one. -/
theorem strtok_spec (delim : UInt8) (text : CString) : (strtok delim text).1 = (fields delim text).head? ∧
    fields delim (strtok delim text).2 = (fields delim text).tail := by
  induction text with
  | nil => exact ⟨rfl, rfl⟩
  | cons b text ih =>
    by_cases same : b = delim
    · rw [same, strtok_cons_delim, fields_cons_delim]
      exact ih
    by_cases within : delim ∈ b :: text
    · obtain ⟨token, rest, split, free⟩ := List.eq_append_cons_of_mem within
      cases token with
      | nil => exact absurd (List.cons.inj split).1 same
      | cons first token =>
        rw [split, strtok_token_append free, fields_token_append free (List.cons_ne_nil _ _)]
        exact ⟨rfl, rfl⟩
    · rw [strtok_token within, fields_token within (List.cons_ne_nil _ _)]
      exact ⟨rfl, rfl⟩

end Fields

section Arguments

variable {program src dst ip name : CString}

theorem clientCommandLine_error (few : (fields 58 dst).length < 2) :
    clientCommandLine true true [program, src, dst] = .error .string := by
  obtain ⟨first, rest⟩ := strtok_spec 58 dst
  cases found : fields 58 dst with
  | nil =>
    rw [found] at first
    simp only [clientCommandLine, first, List.head?_nil]
    rfl
  | cons token tokens =>
    have last : tokens = [] := by
      rw [found, List.length_cons] at few
      exact List.length_eq_zero_iff.mp (by omega)
    rw [found, last] at first rest
    have second := (strtok_spec 58 (strtok 58 dst).2).1
    rw [rest] at second
    simp only [clientCommandLine, first, List.head?_cons, second, List.tail_cons, List.head?_nil]
    rfl

theorem clientCommandLine_transfer {rest : List CString} (found : fields 58 dst = ip :: name :: rest) :
    clientCommandLine true true [program, src, dst] = .ok (.transfer src ip name) := by
  obtain ⟨first, left⟩ := strtok_spec 58 dst
  have second := (strtok_spec 58 (strtok 58 dst).2).1
  rw [left, found] at second
  rw [found] at first
  simp only [clientCommandLine, first, List.head?_cons, second, List.tail_cons]
  rfl

/-- Three arguments are one or the other. -/
theorem clientCommandLine_three (program src dst : CString) :
    ((fields 58 dst).length < 2 ∧ clientCommandLine true true [program, src, dst] = .error .string) ∨
      ∃ ip name rest, fields 58 dst = ip :: name :: rest ∧
        clientCommandLine true true [program, src, dst] = .ok (.transfer src ip name) := by
  by_cases few : (fields 58 dst).length < 2
  · exact .inl ⟨few, clientCommandLine_error few⟩
  cases found : fields 58 dst with
  | nil => exact absurd (by rw [found]; decide) few
  | cons ip tokens =>
    cases tokens with
    | nil => exact absurd (by rw [found]; exact Nat.one_lt_two) few
    | cons name rest => exact .inr ⟨ip, name, rest, rfl, clientCommandLine_transfer found⟩

theorem clientCommandLine_transfer_iff {src' : CString} :
    clientCommandLine true true [program, src, dst] = .ok (.transfer src' ip name) ↔
      src' = src ∧ ∃ rest, fields 58 dst = ip :: name :: rest := by
  constructor
  · intro read
    obtain ⟨_, crashes⟩ | ⟨ip', name', rest, found, read'⟩ := clientCommandLine_three program src dst
    · cases read.symm.trans crashes
    · cases read.symm.trans read'
      exact ⟨rfl, rest, found⟩
  · rintro ⟨rfl, rest, found⟩
    exact clientCommandLine_transfer found

/-- An address and a name go through the command line as long as neither is
empty or has a colon. Without two fields the client crashes before it comes to
its check for them. -/
theorem client_command_line_accepts (program src dst : CString) :
    (∀ src' ip name, clientCommandLine true true [program, src, dst] = .ok (.transfer src' ip name) ↔
      src' = src ∧ ∃ rest, fields 58 dst = ip :: name :: rest) ∧
    (clientCommandLine true true [program, src, dst] = .error .string ↔ (fields 58 dst).length < 2) ∧
    (∀ argv, clientCommandLine true true argv = .ok .usage ↔ argv.length ≠ 3) ∧
    ∀ ip name, clientCommandLine true true [program, src, ip ++ 58 :: name] = .ok (.transfer src ip name) ↔
      (ip ≠ [] ∧ 58 ∉ ip) ∧ name ≠ [] ∧ 58 ∉ name := by
  refine ⟨fun src' ip name => clientCommandLine_transfer_iff, ?_, fun argv => ?_, fun ip name => ?_⟩
  · constructor
    · intro crashes
      obtain ⟨few, _⟩ | ⟨ip, name, rest, found, read⟩ := clientCommandLine_three program src dst
      · exact few
      · cases crashes.symm.trans read
    · exact clientCommandLine_error
  · constructor
    · intro prints three
      obtain ⟨program, src, dst, rfl⟩ := List.length_eq_three.mp three
      obtain ⟨_, crashes⟩ | ⟨ip, name, rest, found, read⟩ := clientCommandLine_three program src dst
      · cases prints.symm.trans crashes
      · cases prints.symm.trans read
    · intro other
      rcases argv with _ | ⟨_, _ | ⟨_, _ | ⟨_, _ | ⟨_, _⟩⟩⟩⟩
      · rfl
      · rfl
      · rfl
      · exact absurd rfl other
      · rfl
  · constructor
    · intro read
      obtain ⟨_, rest, found⟩ := clientCommandLine_transfer_iff.mp read
      have isField : ∀ field ∈ [ip, name], field ∈ fields 58 (ip ++ 58 :: name) := fun field member => by
        rw [found]
        exact List.mem_append_left rest member
      obtain ⟨ipNonempty, ipFree, _⟩ := mem_fields (isField ip (by simp))
      obtain ⟨nameNonempty, nameFree, _⟩ := mem_fields (isField name (by simp))
      exact ⟨⟨ipNonempty, ipFree⟩, nameNonempty, nameFree⟩
    · rintro ⟨⟨ipNonempty, ipFree⟩, nameNonempty, nameFree⟩
      refine clientCommandLine_transfer_iff.mpr ⟨rfl, [], ?_⟩
      rw [fields_token_append ipFree ipNonempty, fields_token nameFree nameNonempty]

end Arguments

end UCP
