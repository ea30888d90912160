import Mathlib.Data.List.Infix
import Mathlib.Data.List.TakeWhile
import Mathlib.Data.Nat.Digits.Defs
import Mathlib.Tactic.IntervalCases
import Mathlib.Tactic.Ring

/-!
# C memory blocks, C strings and `sscanf`

The part of the C library that line-oriented byte code relies on, over plain
byte lists: heap blocks whose fresh bytes are indeterminate, NUL-terminated
strings, `strstr`, `sscanf` for a format made of literal bytes followed by one
`%d` conversion, `strtol`, `fgets`, and `snprintf` with a zero-padded `%d`.  Reading
an indeterminate byte or leaving a block is `none`.  The last section cuts a stream into
delimiter-terminated lines, over any alphabet.
-/

namespace Susrv.Base.CString

abbrev Bytes := List UInt8

/-- The bytes of a C string literal, without its terminator. -/
def ascii (s : String) : Bytes := s.toList.map fun c => UInt8.ofNat c.toNat

/-! ## Heap blocks -/

/-- A heap block; `none` is a byte that was never written. -/
abbrev Block := List (Option UInt8)

def malloc (size : Nat) : Block := List.replicate size none

/-- `realloc` that succeeds: the common prefix is kept. -/
def realloc (block : Block) (size : Nat) : Block :=
  block.take size ++ List.replicate (size - block.length) none

def store (block : Block) (i : Nat) (b : UInt8) : Option Block :=
  if i < block.length then some (block.set i (some b)) else none

def load (block : Block) (i : Nat) : Option UInt8 := block[i]?.join

/-- The NUL-terminated string at the start of a block. -/
def loadString : Block → Option Bytes
  | [] => none
  | none :: _ => none
  | some b :: rest => if b = 0 then some [] else (loadString rest).map (b :: ·)

/-- The block starts with these bytes. -/
def StartsWith (block : Block) (bs : Bytes) : Prop := bs.map some <+: block

@[simp] theorem length_realloc (block : Block) (size : Nat) :
    (realloc block size).length = size := by
  simp only [realloc, List.length_append, List.length_take, List.length_replicate]
  omega

theorem StartsWith.length_le {block : Block} {bs : Bytes} (h : StartsWith block bs) :
    bs.length ≤ block.length := by
  simpa using List.IsPrefix.length_le h

theorem StartsWith.realloc {block : Block} {bs : Bytes} {size : Nat}
    (h : StartsWith block bs) (hsize : bs.length ≤ size) :
    StartsWith (realloc block size) bs := by
  have htake : bs.map some <+: block.take size := by
    rw [List.prefix_take_iff]
    exact ⟨h, by simpa using hsize⟩
  exact htake.trans (List.prefix_append _ _)

theorem store_eq_some {block : Block} {i : Nat} (b : UInt8) (h : i < block.length) :
    store block i b = some (block.set i (some b)) := if_pos h

theorem load_of_startsWith {block : Block} {bs rest : Bytes} {b : UInt8}
    (h : StartsWith block (bs ++ b :: rest)) : load block bs.length = some b := by
  obtain ⟨tail, rfl⟩ := h
  rw [load, List.map_append, List.append_assoc, List.getElem?_append_right (by simp)]
  simp

theorem StartsWith.mono {block : Block} {bs bs' : Bytes} (h : StartsWith block bs)
    (hpre : bs' <+: bs) : StartsWith block bs' :=
  (hpre.map some).trans h

/-- Storing just behind a known prefix extends it. -/
theorem StartsWith.set {block : Block} {bs : Bytes} (b : UInt8)
    (h : StartsWith block bs) (hlt : bs.length < block.length) :
    StartsWith (block.set bs.length (some b)) (bs ++ [b]) := by
  obtain ⟨rest, rfl⟩ := h
  cases rest with
  | nil => simp at hlt
  | cons x rest =>
      refine ⟨rest, ?_⟩
      rw [List.set_append_right _ _ (by simp)]
      simp

/-! ## Strings -/

/-- The C string at the start of a byte sequence: what precedes the first NUL. -/
def cstr (bs : Bytes) : Bytes := bs.takeWhile (· ≠ 0)

theorem cstr_isPrefix (bs : Bytes) : cstr bs <+: bs := List.takeWhile_prefix _

theorem cstr_eq_self {bs : Bytes} (h : 0 ∉ bs) : cstr bs = bs := by
  rw [cstr, List.takeWhile_eq_self_iff]
  intro b hb
  simpa using fun hz : b = 0 => h (hz ▸ hb)

theorem cstr_cons {b : UInt8} (h : b ≠ 0) (bs : Bytes) : cstr (b :: bs) = b :: cstr bs := by
  simp [cstr, h]

theorem nul_not_mem_cstr (bs : Bytes) : 0 ∉ cstr bs := by
  intro h
  simpa using List.mem_takeWhile_imp h

theorem cstr_eq_nil_iff {bs : Bytes} : cstr bs = [] ↔ bs = [] ∨ bs.head? = some 0 := by
  cases bs with
  | nil => simp [cstr]
  | cons b bs => by_cases hb : b = 0 <;> simp [cstr, hb]

/-- A string in a block ends with the terminator of the block or before it. -/
theorem cstr_terminated (bs : Bytes) : cstr bs ++ [0] <+: bs ++ [0] := by
  induction bs with
  | nil => exact List.prefix_refl [0]
  | cons b bs ih =>
      by_cases hb : b = 0
      · simp [cstr, hb]
      · rw [cstr_cons hb, List.cons_append, List.cons_append, List.cons_prefix_cons]
        exact ⟨rfl, ih⟩

theorem cstr_append_of_mem {bs : Bytes} (h : 0 ∈ bs) (rest : Bytes) :
    cstr (bs ++ rest) = cstr bs := by
  rw [cstr, cstr, List.takeWhile_append, if_neg]
  intro hlen
  have hall := List.takeWhile_eq_self_iff.mp
    ((List.takeWhile_prefix (p := fun b : UInt8 => decide (b ≠ 0)) (l := bs)).eq_of_length hlen)
  simpa using hall 0 h

/-- Reading the string of a block that holds `bs` and then a NUL. -/
theorem loadString_of_startsWith {block : Block} {bs : Bytes}
    (h : StartsWith block (bs ++ [0])) : loadString block = some (cstr bs) := by
  obtain ⟨rest, rfl⟩ := h
  induction bs with
  | nil => simp [loadString, cstr]
  | cons b bs ih =>
      by_cases hb : b = 0
      · simp [loadString, cstr, hb]
      · have hrest : loadString ((bs ++ [0]).map some ++ rest) = some (cstr bs) := ih
        simp only [List.cons_append, List.map_cons, loadString, hb, if_false, hrest]
        simp [cstr, hb]

/-- `strstr(hay, needle) != NULL`. -/
def strstr (hay needle : Bytes) : Bool := decide (needle <:+: hay)

@[simp] theorem strstr_iff {hay needle : Bytes} :
    strstr hay needle = true ↔ needle <:+: hay := by
  simp [strstr]

/-! ## `fgets` -/

/-- The bytes up to and including the first line feed. -/
def firstLine : Bytes → Bytes
  | [] => []
  | b :: bs => if b = 10 then [b] else b :: firstLine bs

/-- The array after `fgets(array, sizeof(array), f)` on what is left of the file; at the
end of the file the call returns NULL. -/
def fgets (array : Block) (content : Bytes) : Option Block :=
  if content = [] then none
  else
    let line := (firstLine content).take (array.length - 1)
    some (line.map some ++ some 0 :: array.drop (line.length + 1))

theorem startsWith_of_fgets {array array' : Block} {content : Bytes}
    (h : fgets array content = some array') :
    StartsWith array' ((firstLine content).take (array.length - 1) ++ [0]) := by
  rw [fgets] at h
  split at h
  · cases h
  · cases h
    rw [StartsWith, List.map_append, List.map_singleton]
    exact ⟨array.drop _, List.append_assoc _ _ _⟩

theorem length_fgets {array array' : Block} {content : Bytes} (hpos : 0 < array.length)
    (h : fgets array content = some array') : array'.length = array.length := by
  rw [fgets] at h
  split at h
  · cases h
  · cases h
    simp only [List.length_append, List.length_map, List.length_take, List.length_cons,
      List.length_drop]
    omega

/-- The string that is left of a line: `fgets` cuts it at a line feed and at the size of
the array, which commutes with the cut at a NUL. -/
theorem cstr_take_firstLine (n : Nat) (bs : Bytes) :
    cstr ((firstLine bs).take n) = (firstLine (cstr bs)).take n := by
  induction bs generalizing n with
  | nil => simp [firstLine, cstr]
  | cons b bs ih =>
      cases n with
      | zero => simp [cstr]
      | succ n =>
          by_cases hnul : b = 0
          · simp [firstLine, cstr, hnul]
          · by_cases hline : b = 10
            · simp [firstLine, cstr, hline]
            · rw [cstr_cons hnul, firstLine, if_neg hline, firstLine, if_neg hline,
                List.take_succ_cons, List.take_succ_cons, cstr_cons hnul, ih]

theorem firstLine_eq_self {bs : Bytes} (h : 10 ∉ bs) : firstLine bs = bs := by
  induction bs with
  | nil => rfl
  | cons b bs ih =>
      simp only [List.mem_cons, not_or] at h
      rw [firstLine, if_neg (Ne.symm h.1), ih h.2]

theorem firstLine_eq_append {bs : Bytes} (h : 10 ∈ bs) :
    ∃ line rest, 10 ∉ line ∧ bs = line ++ 10 :: rest ∧ firstLine bs = line ++ [10] := by
  induction bs with
  | nil => simp at h
  | cons b bs ih =>
      by_cases hb : b = 10
      · exact ⟨[], bs, by simp, by simp [hb], by simp [firstLine, hb]⟩
      · have hrest : 10 ∈ bs := (List.mem_cons.mp h).resolve_left (Ne.symm hb)
        obtain ⟨line, rest, hline, rfl, hfirst⟩ := ih hrest
        refine ⟨b :: line, rest, ?_, rfl, ?_⟩
        · simp [hline, Ne.symm hb]
        · rw [firstLine, if_neg hb, hfirst, List.cons_append]

/-! ## `sscanf(s, "<literal>%d\n", &n)` -/

/-- Outcome of a scan: end of input before the conversion (`EOF`), a matching
failure (no conversion, result `0`), or a converted value. -/
inductive Scan
  | eof
  | mismatch
  | value (n : Int)
  deriving DecidableEq, Repr

def INT_MAX : Nat := 2147483647

/-- Two's-complement wrap of a scanned number that does not fit an `int`. -/
def toInt32 (n : Int) : Int := Int.bmod n (2 ^ 32)

def isSpace (b : UInt8) : Bool := b = 32 || (9 ≤ b && b ≤ 13)

def isDigit (b : UInt8) : Bool := 48 ≤ b && b ≤ 57

def digitsValue (ds : Bytes) : Nat := ds.foldl (fun acc b => 10 * acc + (b.toNat - 48)) 0

def scanDigits (negative : Bool) (s : Bytes) : Scan :=
  let ds := s.takeWhile isDigit
  if ds = [] then .mismatch
  else .value (toInt32 (if negative then -(digitsValue ds : Int) else digitsValue ds))

/-- The `%d` conversion: leading white space, an optional sign, digits. -/
def scanInt (s : Bytes) : Scan :=
  match s.dropWhile isSpace with
  | [] => .eof
  | b :: rest =>
      if b = 45 then scanDigits true rest
      else if b = 43 then scanDigits false rest
      else scanDigits false (b :: rest)

/-- A white-space directive after the conversion never changes the outcome, so
the trailing `\n` of the format does not appear here. -/
def sscanf : (literal s : Bytes) → Scan
  | [], s => scanInt s
  | _ :: _, [] => .eof
  | c :: literal, b :: s => if b = c then sscanf literal s else .mismatch

@[simp] theorem sscanf_append (literal s : Bytes) :
    sscanf literal (literal ++ s) = scanInt s := by
  induction literal with
  | nil => cases s <;> rfl
  | cons c literal ih => simp [sscanf, ih]

/-- The literal part does not match and the input does not end inside it. -/
theorem sscanf_mismatch {literal s : Bytes} (hl : ¬ literal <+: s) (hs : ¬ s <+: literal) :
    sscanf literal s = .mismatch := by
  induction literal generalizing s with
  | nil => exact absurd List.nil_prefix hl
  | cons c literal ih =>
      cases s with
      | nil => exact absurd List.nil_prefix hs
      | cons b s =>
          by_cases hb : b = c
          · subst hb
            simp only [List.cons_prefix_cons, true_and] at hl hs
            simp [sscanf, ih hl hs]
          · simp [sscanf, hb]

theorem scanInt_eof_iff {s : Bytes} : scanInt s = .eof ↔ ∀ b ∈ s, isSpace b = true := by
  have hdigits : ∀ negative ds, scanDigits negative ds ≠ .eof := by
    intro negative ds
    simp only [scanDigits]
    split <;> simp
  rw [← List.dropWhile_eq_nil_iff, scanInt]
  cases hdrop : s.dropWhile isSpace with
  | nil => simp
  | cons b rest =>
      simp only [reduceCtorEq, iff_false]
      split
      · exact hdigits _ _
      · split <;> exact hdigits _ _

/-- Input as long as the literal part ends before the conversion exactly when only
white space follows that part. -/
theorem sscanf_eof_iff {literal s : Bytes} (h : literal.length ≤ s.length) :
    sscanf literal s = .eof ↔ ∃ ws, s = literal ++ ws ∧ ∀ b ∈ ws, isSpace b = true := by
  induction literal generalizing s with
  | nil =>
      rw [sscanf, scanInt_eof_iff]
      simp
  | cons c literal ih =>
      cases s with
      | nil => simp at h
      | cons b s =>
          by_cases hb : b = c
          · subst hb
            rw [sscanf, if_pos rfl, ih (by simpa using h)]
            simp
          · simp [sscanf, hb]

/-- `s` begins with a decimal number of value `n`, all of its digits included. -/
inductive NumberAt : (s : Bytes) → (n : Int) → Prop
  | unsigned {ds rest : Bytes} (hne : ds ≠ []) (hds : ∀ b ∈ ds, isDigit b = true)
      (hrest : ∀ b ∈ rest.head?, isDigit b = false) :
      NumberAt (ds ++ rest) (digitsValue ds)
  | plus {ds rest : Bytes} (hne : ds ≠ []) (hds : ∀ b ∈ ds, isDigit b = true)
      (hrest : ∀ b ∈ rest.head?, isDigit b = false) :
      NumberAt (43 :: (ds ++ rest)) (digitsValue ds)
  | minus {ds rest : Bytes} (hne : ds ≠ []) (hds : ∀ b ∈ ds, isDigit b = true)
      (hrest : ∀ b ∈ rest.head?, isDigit b = false) :
      NumberAt (45 :: (ds ++ rest)) (-(digitsValue ds : Int))

/-- The values an `int` has. -/
def InIntRange (n : Int) : Prop := -(2 ^ 31) ≤ n ∧ n < 2 ^ 31

instance (n : Int) : Decidable (InIntRange n) := inferInstanceAs (Decidable (_ ∧ _))

theorem toInt32_of_inIntRange {n : Int} (h : InIntRange n) : toInt32 n = n := by
  obtain ⟨hlow, hhigh⟩ := h
  rw [toInt32, Int.bmod_def]
  split <;> omega

theorem inIntRange_toInt32 (n : Int) : InIntRange (toInt32 n) := by
  have hlow := Int.le_bmod (x := n) (m := 2 ^ 32) (by decide)
  have hhigh := Int.bmod_lt (x := n) (m := 2 ^ 32) (by decide)
  rw [InIntRange, toInt32]
  omega

/-- The digits at the start of a string are all of those a number there has. -/
theorem takeWhile_isDigit {ds rest : Bytes} (hds : ∀ b ∈ ds, isDigit b = true)
    (hrest : ∀ b ∈ rest.head?, isDigit b = false) :
    (ds ++ rest).takeWhile isDigit = ds := by
  rw [List.takeWhile_append_of_pos hds]
  cases rest with
  | nil => simp
  | cons b rest => simp [hrest b (by simp)]

theorem scanDigits_of_number {ds rest : Bytes} (negative : Bool) (hne : ds ≠ [])
    (hds : ∀ b ∈ ds, isDigit b = true) (hrest : ∀ b ∈ rest.head?, isDigit b = false) :
    scanDigits negative (ds ++ rest) =
      .value (toInt32 (if negative then -(digitsValue ds : Int) else digitsValue ds)) := by
  simp only [scanDigits, takeWhile_isDigit hds hrest, hne, if_false]

/-- What `scanDigits` converts is a number. -/
theorem number_of_scanDigits {negative : Bool} {s : Bytes} {m : Int}
    (h : scanDigits negative s = .value m) :
    ∃ ds rest, s = ds ++ rest ∧ ds ≠ [] ∧ (∀ b ∈ ds, isDigit b = true) ∧
      (∀ b ∈ rest.head?, isDigit b = false) ∧
      m = toInt32 (if negative then -(digitsValue ds : Int) else digitsValue ds) := by
  simp only [scanDigits] at h
  split at h
  · cases h
  · rename_i hne
    refine ⟨s.takeWhile isDigit, s.dropWhile isDigit, by simp, hne, ?_, ?_, ?_⟩
    · intro b hb
      exact List.mem_takeWhile_imp hb
    · intro b hb
      have hhead := List.head?_dropWhile_not isDigit s
      rw [Option.mem_def.mp hb] at hhead
      simpa using hhead
    · exact (Scan.value.inj h).symm

theorem sscanf_eq_value_iff {literal s : Bytes} {m : Int} :
    sscanf literal s = .value m ↔ ∃ rest, s = literal ++ rest ∧ scanInt rest = .value m := by
  induction literal generalizing s with
  | nil => simp [sscanf]
  | cons c literal ih =>
      cases s with
      | nil => simp [sscanf]
      | cons b s =>
          by_cases hb : b = c
          · subst hb
            simp [sscanf, ih]
          · simp [sscanf, hb]

/-! ## `strtol` -/

/-- `strtol(s, &endptr, 10)`: the value and what `endptr` points to.  A value that is not a
`long` is replaced by the nearest one. -/
def strtol (long_max : Nat) (s : Bytes) : Int × Bytes :=
  let body := s.dropWhile isSpace
  let negative := body.head? = some 45
  let number := if negative ∨ body.head? = some 43 then body.tail else body
  let ds := number.takeWhile isDigit
  if ds = [] then (0, s)
  else
    (if negative then max (-(long_max + 1)) (-digitsValue ds) else min long_max (digitsValue ds),
      number.dropWhile isDigit)

/-! ## Decimal numbers -/

/-- What `printf("%d")` or a shell writes for a natural number. -/
def decimal (n : Nat) : Bytes := (Nat.toDigits 10 n).map fun c => UInt8.ofNat c.toNat

def digitByte (d : Nat) : UInt8 := UInt8.ofNat (48 + d)

theorem decimal_of_lt {n : Nat} (h : n < 10) : decimal n = [digitByte n] := by
  interval_cases n <;> rfl

theorem decimal_of_ge {n : Nat} (h : 10 ≤ n) :
    decimal n = decimal (n / 10) ++ [digitByte (n % 10)] := by
  have hlast : UInt8.ofNat (Nat.digitChar (n % 10)).toNat = digitByte (n % 10) := by
    have hlt : n % 10 < 10 := Nat.mod_lt _ (by omega)
    interval_cases n % 10 <;> rfl
  rw [decimal, Nat.toDigits_of_base_le (by omega) h, List.map_append, List.map_singleton, hlast,
    decimal]

theorem toNat_digitByte {d : Nat} (h : d < 10) : (digitByte d).toNat = 48 + d := by
  interval_cases d <;> rfl

theorem isDigit_digitByte {d : Nat} (h : d < 10) : isDigit (digitByte d) = true := by
  interval_cases d <;> rfl

theorem isDigit_of_mem_decimal {n : Nat} : ∀ b ∈ decimal n, isDigit b = true := by
  induction n using Nat.strongRecOn with
  | ind n ih =>
      intro b hb
      by_cases hn : n < 10
      · rw [decimal_of_lt hn, List.mem_singleton] at hb
        exact hb ▸ isDigit_digitByte hn
      · rw [decimal_of_ge (by omega), List.mem_append, List.mem_singleton] at hb
        rcases hb with hb | rfl
        · exact ih (n / 10) (by omega) b hb
        · exact isDigit_digitByte (Nat.mod_lt _ (by omega))

theorem decimal_ne_nil (n : Nat) : decimal n ≠ [] := by
  by_cases hn : n < 10
  · simp [decimal_of_lt hn]
  · simp [decimal_of_ge (n := n) (by omega)]

@[simp] theorem digitsValue_decimal (n : Nat) : digitsValue (decimal n) = n := by
  induction n using Nat.strongRecOn with
  | ind n ih =>
      by_cases hn : n < 10
      · simp [decimal_of_lt hn, digitsValue, toNat_digitByte hn]
      · have hmod : n % 10 < 10 := Nat.mod_lt _ (by omega)
        have hprev : digitsValue (decimal (n / 10)) = n / 10 := ih (n / 10) (by omega)
        rw [decimal_of_ge (by omega), digitsValue, List.foldl_append]
        simp only [digitsValue] at hprev
        simp only [hprev, List.foldl_cons, List.foldl_nil, toNat_digitByte hmod]
        omega

/-- A digit is neither white space nor a sign. -/
theorem isDigit_not_sign {b : UInt8} (h : isDigit b = true) :
    isSpace b = false ∧ b ≠ 45 ∧ b ≠ 43 := by
  simp only [isDigit, isSpace, Bool.and_eq_true, decide_eq_true_eq, UInt8.le_iff_toNat_le,
    Bool.or_eq_false_iff, Bool.and_eq_false_iff, decide_eq_false_iff_not, ← UInt8.toNat_inj,
    ne_eq] at h ⊢
  simp only [UInt8.reduceToNat] at h ⊢
  omega

/-- The conversion stores a number that follows optional white space, wrapped to an `int`. -/
theorem scanInt_eq_value_iff {s : Bytes} {m : Int} :
    scanInt s = .value m ↔
      ∃ ws body n, s = ws ++ body ∧ (∀ b ∈ ws, isSpace b = true) ∧ NumberAt body n ∧
        m = toInt32 n := by
  constructor
  · intro h
    have hsplit : s = s.takeWhile isSpace ++ s.dropWhile isSpace := by simp
    have hws : ∀ b ∈ s.takeWhile isSpace, isSpace b = true := fun b hb => List.mem_takeWhile_imp hb
    rw [scanInt] at h
    cases hdrop : s.dropWhile isSpace with
    | nil => simp [hdrop] at h
    | cons b rest =>
        rw [hdrop] at h hsplit
        simp only at h
        have hnumber : ∃ n, NumberAt (b :: rest) n ∧ m = toInt32 n := by
          split at h
          · obtain ⟨ds, tail, rfl, hne, hds, htail, hm⟩ := number_of_scanDigits h
            rename_i hb
            exact ⟨_, hb ▸ .minus hne hds htail, hm⟩
          · split at h
            · obtain ⟨ds, tail, rfl, hne, hds, htail, hm⟩ := number_of_scanDigits h
              rename_i hb
              exact ⟨_, hb ▸ .plus hne hds htail, hm⟩
            · obtain ⟨ds, tail, hs, hne, hds, htail, hm⟩ := number_of_scanDigits h
              exact ⟨_, hs ▸ .unsigned hne hds htail, hm⟩
        obtain ⟨n, hn, hm⟩ := hnumber
        exact ⟨_, _, n, hsplit, hws, hn, hm⟩
  · rintro ⟨ws, body, n, rfl, hws, hn, rfl⟩
    rw [scanInt, List.dropWhile_append_of_pos hws]
    cases hn with
    | @unsigned ds rest hne hds hrest =>
        obtain ⟨d, ds', rfl⟩ := List.exists_cons_of_ne_nil hne
        obtain ⟨hspace, hminus, hplus⟩ := isDigit_not_sign (hds d (by simp))
        have hscan := scanDigits_of_number false hne hds hrest
        rw [List.cons_append] at hscan ⊢
        rw [List.dropWhile_cons_of_neg (by simp [hspace])]
        simpa only [hminus, hplus, if_false, Bool.false_eq_true] using hscan
    | plus hne hds hrest =>
        have hscan := scanDigits_of_number false hne hds hrest
        rw [List.dropWhile_cons_of_neg (by decide)]
        simpa using hscan
    | minus hne hds hrest =>
        have hscan := scanDigits_of_number true hne hds hrest
        rw [List.dropWhile_cons_of_neg (by decide)]
        simpa using hscan

theorem toInt32_of_le {n : Nat} (h : n ≤ INT_MAX) : toInt32 n = n := by
  apply toInt32_of_inIntRange
  simp only [INT_MAX] at h
  constructor <;> omega

/-- Scanning a decimal number followed by anything but a digit reads it back. -/
theorem scanInt_decimal {n : Nat} (hn : n ≤ INT_MAX) {b : UInt8} (hb : isDigit b = false)
    (rest : Bytes) : scanInt (decimal n ++ b :: rest) = .value n := by
  obtain ⟨d, ds, hd⟩ := List.exists_cons_of_ne_nil (decimal_ne_nil n)
  have hdigit : isDigit d = true := isDigit_of_mem_decimal (n := n) d (by simp [hd])
  obtain ⟨hspace, hminus, hplus⟩ := isDigit_not_sign hdigit
  have hdrop : (decimal n ++ b :: rest).dropWhile isSpace = d :: (ds ++ b :: rest) := by
    simp [hd, hspace]
  have htake : (d :: (ds ++ b :: rest)).takeWhile isDigit = decimal n := by
    rw [← List.cons_append, ← hd, List.takeWhile_append_of_pos isDigit_of_mem_decimal]
    simp [hb]
  simp only [scanInt, hdrop, hminus, hplus, if_false, scanDigits, htake, decimal_ne_nil,
    digitsValue_decimal, Bool.false_eq_true, toInt32_of_le hn]

theorem digitsValue_append (xs ys : Bytes) :
    digitsValue (xs ++ ys) = digitsValue xs * 10 ^ ys.length + digitsValue ys := by
  have hfold : ∀ (ys : Bytes) (acc : Nat),
      ys.foldl (fun acc b => 10 * acc + (b.toNat - 48)) acc =
        acc * 10 ^ ys.length + digitsValue ys := by
    intro ys
    induction ys with
    | nil => simp [digitsValue]
    | cons b ys ih =>
        intro acc
        rw [digitsValue, List.foldl_cons, List.foldl_cons, ih, ih, List.length_cons, Nat.pow_succ]
        ring
  rw [digitsValue, List.foldl_append]
  exact hfold ys (digitsValue xs)

theorem digitsValue_lt {ds : Bytes} (h : ∀ b ∈ ds, isDigit b = true) :
    digitsValue ds < 10 ^ ds.length := by
  induction ds with
  | nil => simp [digitsValue]
  | cons b ds ih =>
      have hrest : digitsValue ds < 10 ^ ds.length := ih fun d hd => h d (by simp [hd])
      have hb : b.toNat - 48 ≤ 9 := by
        have hdigit := h b (by simp)
        simp only [isDigit, Bool.and_eq_true, decide_eq_true_eq, UInt8.le_iff_toNat_le,
          UInt8.reduceToNat] at hdigit
        omega
      have hcons := digitsValue_append [b] ds
      have hhead : digitsValue [b] = b.toNat - 48 := by simp [digitsValue]
      rw [List.singleton_append, hhead] at hcons
      rw [hcons, List.length_cons, Nat.pow_succ]
      have hle : (b.toNat - 48) * 10 ^ ds.length ≤ 9 * 10 ^ ds.length :=
        Nat.mul_le_mul_right _ hb
      omega

/-- A number has no more digits than its bound allows. -/
theorem length_decimal_le_iff {n width : Nat} (hwidth : 0 < width) :
    (decimal n).length ≤ width ↔ n < 10 ^ width := by
  constructor
  · intro h
    calc n = digitsValue (decimal n) := (digitsValue_decimal n).symm
      _ < 10 ^ (decimal n).length := digitsValue_lt isDigit_of_mem_decimal
      _ ≤ 10 ^ width := Nat.pow_le_pow_right (by omega) h
  · intro h
    rw [decimal, List.length_map]
    exact Nat.toDigits_length 10 n width hwidth h

/-! ## Formatted output -/

/-- `%0wd` of a natural number, where `w` is `width`. -/
def zeroPadded (width n : Nat) : Bytes :=
  List.replicate (width - (decimal n).length) 48 ++ decimal n

/-- The string `snprintf` leaves in a buffer of `size` bytes; for `size` 0 it writes nothing. -/
def snprintf (size : Nat) (text : Bytes) : Option Bytes :=
  if size = 0 then none else some (text.take (size - 1))

theorem length_zeroPadded (width n : Nat) :
    (zeroPadded width n).length = max width (decimal n).length := by
  rw [zeroPadded, List.length_append, List.length_replicate]
  omega

/-- The width is a minimum: it is exceeded by the numbers with more digits. -/
theorem length_zeroPadded_le_iff {width n : Nat} (hwidth : 0 < width) :
    (zeroPadded width n).length ≤ width ↔ n < 10 ^ width := by
  rw [length_zeroPadded, ← length_decimal_le_iff hwidth]
  omega

theorem zeroPadded_injective (width : Nat) : Function.Injective (zeroPadded width) := by
  have hzeros : ∀ k, digitsValue (List.replicate k 48) = 0 := by
    intro k
    induction k with
    | zero => rfl
    | succ k ih => rw [List.replicate_succ', digitsValue_append, ih, Nat.zero_mul]; rfl
  intro m n heq
  have hvalue := congrArg digitsValue heq
  simpa only [zeroPadded, digitsValue_append, hzeros, Nat.zero_mul, Nat.zero_add,
    digitsValue_decimal] using hvalue

/-- The output is complete exactly when it fits with its terminator. -/
theorem snprintf_eq_self_iff {size : Nat} {text : Bytes} :
    snprintf size text = some text ↔ text.length < size := by
  rw [snprintf]
  split
  · rename_i hzero
    simp [hzero]
  · rw [Option.some.injEq, List.take_eq_self_iff]
    omega

/-! ## Delimited lines -/

section Lines

variable {α : Type*} [DecidableEq α]

/-- Cuts `bs` behind every delimiter, `cur` being the line already begun: the
finished lines, each with its delimiter, and the line left unfinished. -/
def splitLines (d : α) : (cur bs : List α) → List (List α) × List α
  | cur, [] => ([], cur)
  | cur, b :: bs =>
      if b = d then ((cur ++ [b]) :: (splitLines d [] bs).1, (splitLines d [] bs).2)
      else splitLines d (cur ++ [b]) bs

@[simp] theorem splitLines_nil (d : α) (cur : List α) : splitLines d cur [] = ([], cur) := rfl

theorem splitLines_append (d : α) (cur xs ys : List α) :
    splitLines d cur (xs ++ ys) =
      ((splitLines d cur xs).1 ++ (splitLines d (splitLines d cur xs).2 ys).1,
        (splitLines d (splitLines d cur xs).2 ys).2) := by
  induction xs generalizing cur with
  | nil => simp
  | cons x xs ih =>
      simp only [List.cons_append, splitLines]
      split <;> simp [ih]

/-- Nothing is lost: the lines and the rest are the stream again. -/
theorem splitLines_flatten (d : α) (cur bs : List α) :
    (splitLines d cur bs).1.flatten ++ (splitLines d cur bs).2 = cur ++ bs := by
  induction bs generalizing cur with
  | nil => simp
  | cons b bs ih =>
      simp only [splitLines]
      split <;> simp [ih]

/-- A delimiter-free stretch only extends the unfinished line. -/
theorem splitLines_of_not_mem {d : α} {bs : List α} (h : d ∉ bs) (cur : List α) :
    splitLines d cur bs = ([], cur ++ bs) := by
  induction bs generalizing cur with
  | nil => simp
  | cons b bs ih =>
      simp only [List.mem_cons, not_or] at h
      rw [splitLines, if_neg (Ne.symm h.1), ih h.2]
      simp

theorem splitLines_line {d : α} {bs : List α} (h : d ∉ bs) (cur : List α) :
    splitLines d cur (bs ++ [d]) = ([cur ++ bs ++ [d]], []) := by
  rw [splitLines_append, splitLines_of_not_mem h]
  simp [splitLines]

/-- Every finished line is a piece of the stream. -/
theorem infix_of_mem_splitLines {d : α} {cur bs line : List α}
    (h : line ∈ (splitLines d cur bs).1) : line <:+: cur ++ bs := by
  rw [← splitLines_flatten d cur bs]
  exact ((List.infix_of_mem_flatten h).trans (List.prefix_append _ _).isInfix)

/-- The line already begun is the start of a finished line or of what is left over. -/
theorem exists_splitLines_prefix (d : α) (cur bs : List α) :
    ∃ piece ∈ (splitLines d cur bs).1 ++ [(splitLines d cur bs).2], cur <+: piece := by
  induction bs generalizing cur with
  | nil => exact ⟨cur, by simp, List.prefix_refl cur⟩
  | cons b bs ih =>
      rw [splitLines]
      split
      · exact ⟨cur ++ [b], by simp, List.prefix_append cur [b]⟩
      · obtain ⟨piece, hpiece, hpre⟩ := ih (cur ++ [b])
        exact ⟨piece, hpiece, (List.prefix_append cur [b]).trans hpre⟩

/-- Nothing is left over exactly when the stream is empty or ends with the delimiter. -/
theorem splitLines_rest_eq_nil_iff (d : α) (bs : List α) :
    (splitLines d [] bs).2 = [] ↔ bs = [] ∨ bs.getLast? = some d := by
  induction bs using List.reverseRecOn with
  | nil => simp
  | append_singleton bs b _ =>
      rw [splitLines_append]
      by_cases hb : b = d
      · simp [splitLines, hb]
      · simp [splitLines, hb]

end Lines

end Susrv.Base.CString
