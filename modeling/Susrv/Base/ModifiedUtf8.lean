import Susrv.Base.CString

/-!
# UTF-8, UTF-16 and modified UTF-8

A text is a list of Unicode scalar values.  Modified UTF-8 encodes the code units of
its UTF-16 form one by one: NUL takes two bytes, and a supplementary character six,
as two surrogates.  The encodings of a text without NUL agree exactly if it has no
supplementary character (`encode_utf16_eq_utf8_iff`); otherwise its UTF-8 form is not
even well-formed modified UTF-8 (`decode_utf8_eq_none`).
-/

namespace Susrv.Base.ModifiedUtf8

open CString

/-! ## The encodings -/

/-- The UTF-16 form of a scalar value. -/
def utf16Char (c : Char) : List UInt16 :=
  if c.toNat < 0x10000 then [UInt16.ofNat c.toNat]
  else
    [UInt16.ofNat (0xD800 + (c.toNat - 0x10000) / 0x400),
      UInt16.ofNat (0xDC00 + (c.toNat - 0x10000) % 0x400)]

def utf16 (text : List Char) : List UInt16 := text.flatMap utf16Char

def utf8 (text : List Char) : Bytes := text.flatMap String.utf8EncodeChar

/-- The modified UTF-8 form of a code unit. -/
def encodeUnit (unit : UInt16) : Bytes :=
  let v := unit.toNat
  if v = 0 then [0xC0, 0x80]
  else if v < 0x80 then [UInt8.ofNat v]
  else if v < 0x800 then [UInt8.ofNat (0xC0 + v / 64), UInt8.ofNat (0x80 + v % 64)]
  else
    [UInt8.ofNat (0xE0 + v / 4096), UInt8.ofNat (0x80 + v / 64 % 64), UInt8.ofNat (0x80 + v % 64)]

def encode (units : List UInt16) : Bytes := units.flatMap encodeUnit

theorem encode_cons (unit : UInt16) (units : List UInt16) :
    encode (unit :: units) = encodeUnit unit ++ encode units := List.flatMap_cons

theorem encode_append (units units' : List UInt16) :
    encode (units ++ units') = encode units ++ encode units' := by
  simp [encode]

def isTail (b : UInt8) : Bool := 0x80 ≤ b.toNat && b.toNat < 0xC0

/-- The code units that the bytes are the modified UTF-8 form of. -/
def decode : Bytes → Option (List UInt16)
  | [] => some []
  | a :: rest =>
      let x := a.toNat
      if x = 0 then none
      else if x < 0x80 then (decode rest).map (UInt16.ofNat x :: ·)
      else if 0xC0 ≤ x ∧ x < 0xE0 then
        match rest with
        | b :: rest =>
            let v := (x - 0xC0) * 64 + (b.toNat - 0x80)
            if isTail b ∧ (v = 0 ∨ 0x80 ≤ v) then (decode rest).map (UInt16.ofNat v :: ·)
            else none
        | [] => none
      else if 0xE0 ≤ x ∧ x < 0xF0 then
        match rest with
        | b :: c :: rest =>
            let v := (x - 0xE0) * 4096 + (b.toNat - 0x80) * 64 + (c.toNat - 0x80)
            if isTail b ∧ isTail c ∧ 0x800 ≤ v then (decode rest).map (UInt16.ofNat v :: ·)
            else none
        | _ => none
      else none

/-! ## Modified UTF-8 by itself -/

theorem toNat_ofNat {n : Nat} (h : n < 256) : (UInt8.ofNat n).toNat = n :=
  UInt8.toNat_ofNat_of_lt' h

theorem decode_one {v : Nat} (hpos : v ≠ 0) (hlt : v < 0x80) (rest : Bytes) :
    decode (UInt8.ofNat v :: rest) = (decode rest).map (UInt16.ofNat v :: ·) := by
  rw [decode.eq_def]
  simp only [toNat_ofNat (by omega : v < 256), hpos, hlt, if_true, if_false]

theorem decode_two {v : Nat} (hv : v = 0 ∨ 0x80 ≤ v) (hlt : v < 0x800) (rest : Bytes) :
    decode (UInt8.ofNat (0xC0 + v / 64) :: UInt8.ofNat (0x80 + v % 64) :: rest) =
      (decode rest).map (UInt16.ofNat v :: ·) := by
  have hfirst : (UInt8.ofNat (0xC0 + v / 64)).toNat = 0xC0 + v / 64 := toNat_ofNat (by omega)
  have hsecond : (UInt8.ofNat (0x80 + v % 64)).toNat = 0x80 + v % 64 := toNat_ofNat (by omega)
  have htail : isTail (UInt8.ofNat (0x80 + v % 64)) = true := by
    simp only [isTail, hsecond, Bool.and_eq_true, decide_eq_true_eq]
    omega
  have hvalue : (0xC0 + v / 64 - 0xC0) * 64 + (0x80 + v % 64 - 0x80) = v := by omega
  rw [decode.eq_def]
  simp only [hfirst, hsecond, hvalue, htail, hv, true_and, if_true]
  rw [if_neg (by omega), if_neg (by omega), if_pos (by omega)]

theorem decode_three {v : Nat} (hge : 0x800 ≤ v) (hlt : v < 0x10000) (rest : Bytes) :
    decode (UInt8.ofNat (0xE0 + v / 4096) :: UInt8.ofNat (0x80 + v / 64 % 64) ::
        UInt8.ofNat (0x80 + v % 64) :: rest) =
      (decode rest).map (UInt16.ofNat v :: ·) := by
  have hfirst : (UInt8.ofNat (0xE0 + v / 4096)).toNat = 0xE0 + v / 4096 := toNat_ofNat (by omega)
  have hsecond : (UInt8.ofNat (0x80 + v / 64 % 64)).toNat = 0x80 + v / 64 % 64 :=
    toNat_ofNat (by omega)
  have hthird : (UInt8.ofNat (0x80 + v % 64)).toNat = 0x80 + v % 64 := toNat_ofNat (by omega)
  have htail : isTail (UInt8.ofNat (0x80 + v / 64 % 64)) = true := by
    simp only [isTail, hsecond, Bool.and_eq_true, decide_eq_true_eq]
    omega
  have htail' : isTail (UInt8.ofNat (0x80 + v % 64)) = true := by
    simp only [isTail, hthird, Bool.and_eq_true, decide_eq_true_eq]
    omega
  have hvalue : (0xE0 + v / 4096 - 0xE0) * 4096 + (0x80 + v / 64 % 64 - 0x80) * 64 +
      (0x80 + v % 64 - 0x80) = v := by omega
  rw [decode.eq_def]
  simp only [hfirst, hsecond, hthird, hvalue, htail, htail', hge, true_and, if_true]
  rw [if_neg (by omega), if_neg (by omega), if_neg (by omega), if_pos (by omega)]

/-- The lead byte of a supplementary character is not modified UTF-8. -/
theorem decode_lead {a : UInt8} (h : 0xF0 ≤ a.toNat) (rest : Bytes) :
    decode (a :: rest) = none := by
  rw [decode.eq_def]
  simp only
  rw [if_neg (by omega), if_neg (by omega), if_neg (by omega), if_neg (by omega)]

/-- A unit is read back, whatever follows it. -/
theorem decode_encodeUnit_append (unit : UInt16) (rest : Bytes) :
    decode (encodeUnit unit ++ rest) = (decode rest).map (unit :: ·) := by
  have hlt : unit.toNat < 0x10000 := unit.toNat_lt
  have hback : UInt16.ofNat unit.toNat = unit := UInt16.ofNat_toNat
  simp only [encodeUnit]
  split_ifs with hzero hone htwo
  · have hunit : unit = UInt16.ofNat 0 := by rw [← hback, hzero]
    rw [hunit]
    exact decode_two (.inl rfl) (by omega) rest
  · have hone := decode_one hzero hone rest
    rw [hback] at hone
    exact hone
  · have htwo := decode_two (.inr (by omega)) htwo rest
    rw [hback] at htwo
    exact htwo
  · have hthree := decode_three (by omega) hlt rest
    rw [hback] at hthree
    exact hthree

theorem decode_encode_append (units : List UInt16) (rest : Bytes) :
    decode (encode units ++ rest) = (decode rest).map (units ++ ·) := by
  induction units with
  | nil => simp [encode]
  | cons unit units ih =>
      rw [encode_cons, List.append_assoc, decode_encodeUnit_append, ih, Option.map_map]
      rfl

@[simp] theorem decode_encode (units : List UInt16) : decode (encode units) = some units := by
  have happend := decode_encode_append units []
  rw [List.append_nil, decode, Option.map_some, List.append_nil] at happend
  exact happend

theorem toNat_unit {n : Nat} (h : n < 0x10000) : (UInt16.ofNat n).toNat = n :=
  UInt16.toNat_ofNat_of_lt' h

theorem encodeUnit_one {a : UInt8} (hpos : a.toNat ≠ 0) (hlt : a.toNat < 0x80) :
    encodeUnit (UInt16.ofNat a.toNat) = [a] := by
  have hvalue : (UInt16.ofNat a.toNat).toNat = a.toNat := toNat_unit (by omega)
  simp only [encodeUnit, hvalue]
  rw [if_neg hpos, if_pos hlt, UInt8.ofNat_toNat]

theorem encodeUnit_two {a b : UInt8} (ha : 0xC0 ≤ a.toNat ∧ a.toNat < 0xE0) (hb : isTail b = true)
    {v : Nat} (hdef : v = (a.toNat - 0xC0) * 64 + (b.toNat - 0x80)) (hv : v = 0 ∨ 0x80 ≤ v) :
    encodeUnit (UInt16.ofNat v) = [a, b] := by
  simp only [isTail, Bool.and_eq_true, decide_eq_true_eq] at hb
  have hvalue : (UInt16.ofNat v).toNat = v := toNat_unit (by omega)
  have hfirst : 0xC0 + v / 64 = a.toNat := by omega
  have hsecond : 0x80 + v % 64 = b.toNat := by omega
  simp only [encodeUnit, hvalue]
  by_cases hzero : v = 0
  · have ha' : a = UInt8.ofNat 0xC0 := by rw [← UInt8.ofNat_toNat (x := a), ← hfirst, hzero]
    have hb' : b = UInt8.ofNat 0x80 := by rw [← UInt8.ofNat_toNat (x := b), ← hsecond, hzero]
    rw [if_pos hzero, ha', hb']
    rfl
  · rw [if_neg hzero, if_neg (by omega), if_pos (by omega), hfirst, hsecond, UInt8.ofNat_toNat,
      UInt8.ofNat_toNat]

theorem encodeUnit_three {a b c : UInt8} (ha : 0xE0 ≤ a.toNat ∧ a.toNat < 0xF0)
    (hb : isTail b = true) (hc : isTail c = true) {v : Nat}
    (hdef : v = (a.toNat - 0xE0) * 4096 + (b.toNat - 0x80) * 64 + (c.toNat - 0x80))
    (hv : 0x800 ≤ v) : encodeUnit (UInt16.ofNat v) = [a, b, c] := by
  simp only [isTail, Bool.and_eq_true, decide_eq_true_eq] at hb hc
  have hvalue : (UInt16.ofNat v).toNat = v := toNat_unit (by omega)
  have hfirst : 0xE0 + v / 4096 = a.toNat := by omega
  have hsecond : 0x80 + v / 64 % 64 = b.toNat := by omega
  have hthird : 0x80 + v % 64 = c.toNat := by omega
  simp only [encodeUnit, hvalue]
  rw [if_neg (by omega), if_neg (by omega), if_neg (by omega), hfirst, hsecond, hthird,
    UInt8.ofNat_toNat, UInt8.ofNat_toNat, UInt8.ofNat_toNat]

/-- Only the modified UTF-8 form of a string is read as this string. -/
theorem encode_of_decode {bytes : Bytes} {units : List UInt16} (h : decode bytes = some units) :
    encode units = bytes := by
  fun_induction decode bytes generalizing units
  case case1 =>
    cases h
    rfl
  case case3 a rest x hpos hlt ih =>
    obtain ⟨more, hmore, rfl⟩ := Option.map_eq_some_iff.mp h
    rw [encode_cons, encodeUnit_one hpos hlt, ih hmore]
    rfl
  case case4 a x hpos hone hlead b rest v htail ih =>
    obtain ⟨more, hmore, rfl⟩ := Option.map_eq_some_iff.mp h
    rw [encode_cons, encodeUnit_two hlead htail.1 rfl htail.2, ih hmore]
    rfl
  case case7 a x hpos hone htwo hlead b c rest v htail ih =>
    obtain ⟨more, hmore, rfl⟩ := Option.map_eq_some_iff.mp h
    rw [encode_cons, encodeUnit_three hlead htail.1 htail.2.1 rfl htail.2.2, ih hmore]
    rfl
  -- everywhere else the bytes are ill-formed
  all_goals cases h

theorem decode_eq_some_iff {bytes : Bytes} {units : List UInt16} :
    decode bytes = some units ↔ encode units = bytes := by
  constructor
  · exact encode_of_decode
  · rintro rfl
    exact decode_encode units

theorem nul_not_mem_ofNat (ns : List Nat) (h : ∀ n ∈ ns, 0 < n ∧ n < 256) :
    0 ∉ ns.map UInt8.ofNat := by
  intro hmem
  obtain ⟨n, hn, heq⟩ := List.mem_map.mp hmem
  obtain ⟨hpos, hlt⟩ := h n hn
  have hvalue := congrArg UInt8.toNat heq
  rw [toNat_ofNat hlt] at hvalue
  exact absurd hvalue (by change n ≠ 0; omega)

theorem nul_not_mem_encode (units : List UInt16) : 0 ∉ encode units := by
  intro hmem
  rw [encode, List.mem_flatMap] at hmem
  obtain ⟨unit, -, hunit⟩ := hmem
  have hlt : unit.toNat < 0x10000 := unit.toNat_lt
  revert hunit
  simp only [encodeUnit]
  split_ifs with hzero hone htwo
  · decide
  · exact nul_not_mem_ofNat [_] (by simp; omega)
  · exact nul_not_mem_ofNat [_, _] (by simp; omega)
  · exact nul_not_mem_ofNat [_, _, _] (by simp; omega)

/-! ## Against UTF-8 -/

/-- The character is one code unit. -/
def Basic (c : Char) : Prop := c.toNat < 0x10000

instance (c : Char) : Decidable (Basic c) := inferInstanceAs (Decidable (_ < _))

/-- A character that is one code unit and not NUL has the same form in both. -/
theorem encode_utf16Char_of_basic {c : Char} (h : Basic c) (hnul : c.toNat ≠ 0) :
    encode (utf16Char c) = String.utf8EncodeChar c := by
  have hlt : c.toNat < 0x10000 := h
  have hunit : (UInt16.ofNat c.toNat).toNat = c.toNat := toNat_unit hlt
  have hval : c.val.toNat = c.toNat := rfl
  rw [utf16Char, if_pos hlt, encode, List.flatMap_singleton, encodeUnit, String.utf8EncodeChar]
  simp only [hunit, hval, hnul, if_false]
  by_cases hone : c.toNat < 0x80
  · have hone' : c.toNat ≤ 0x7F := by omega
    rw [if_pos hone, if_pos hone']
  · have hone' : ¬ c.toNat ≤ 0x7F := by omega
    rw [if_neg hone, if_neg hone']
    by_cases htwo : c.toNat < 0x800
    · have htwo' : c.toNat ≤ 0x7FF := by omega
      have hfirst : c.toNat / 64 % 32 + 0xC0 = 0xC0 + c.toNat / 64 := by omega
      rw [if_pos htwo, if_pos htwo', hfirst, Nat.add_comm (c.toNat % 64)]
    · have htwo' : ¬ c.toNat ≤ 0x7FF := by omega
      have hthree : c.toNat ≤ 0xFFFF := by omega
      have hfirst : c.toNat / 4096 % 16 + 0xE0 = 0xE0 + c.toNat / 4096 := by omega
      rw [if_neg htwo, if_neg htwo', if_pos hthree, hfirst, Nat.add_comm (c.toNat / 64 % 64),
        Nat.add_comm (c.toNat % 64)]

theorem nul_not_mem_utf8 {text : List Char} (h : ∀ c ∈ text, c.toNat ≠ 0) : 0 ∉ utf8 text := by
  intro hmem
  rw [utf8, List.mem_flatMap] at hmem
  obtain ⟨c, hc, hbyte⟩ := hmem
  have hnul : c.val.toNat ≠ 0 := h c hc
  revert hbyte
  simp only [String.utf8EncodeChar]
  split_ifs
  · exact nul_not_mem_ofNat [_] (by rw [List.forall_mem_singleton]; omega)
  · exact nul_not_mem_ofNat [_, _] (by simp; omega)
  · exact nul_not_mem_ofNat [_, _, _] (by simp; omega)
  · exact nul_not_mem_ofNat [_, _, _, _] (by simp; omega)

/-- The forms of a text of basic characters are the same. -/
theorem encode_utf16_of_basic {text : List Char} (h : ∀ c ∈ text, Basic c)
    (hnul : ∀ c ∈ text, c.toNat ≠ 0) : encode (utf16 text) = utf8 text := by
  induction text with
  | nil => rfl
  | cons c text ih =>
      rw [utf16, utf8, List.flatMap_cons, List.flatMap_cons, encode_append,
        encode_utf16Char_of_basic (h c (by simp)) (hnul c (by simp))]
      exact congrArg _ (ih (fun d hd => h d (by simp [hd])) fun d hd => hnul d (by simp [hd]))

/-- The UTF-8 form of a supplementary character begins with a byte that modified UTF-8
does not have. -/
theorem utf8EncodeChar_of_not_basic {c : Char} (h : ¬ Basic c) :
    ∃ a rest, String.utf8EncodeChar c = a :: rest ∧ 0xF0 ≤ a.toNat := by
  have hlarge : 0x10000 ≤ c.val.toNat := Nat.le_of_not_lt h
  simp only [String.utf8EncodeChar]
  rw [if_neg (by omega), if_neg (by omega), if_neg (by omega)]
  refine ⟨_, _, rfl, ?_⟩
  rw [toNat_ofNat (by omega)]
  omega

theorem decode_utf8_eq_none {text : List Char} (hnul : ∀ c ∈ text, c.toNat ≠ 0)
    (h : ∃ c ∈ text, ¬ Basic c) : decode (utf8 text) = none := by
  induction text with
  | nil => simp at h
  | cons c text ih =>
      rw [utf8, List.flatMap_cons]
      by_cases hc : Basic c
      · have hrest : ∃ d ∈ text, ¬ Basic d := by
          obtain ⟨d, hd, hnot⟩ := h
          rcases List.mem_cons.mp hd with heq | hd
          · exact absurd (heq ▸ hc) hnot
          · exact ⟨d, hd, hnot⟩
        have hnone := ih (fun d hd => hnul d (by simp [hd])) hrest
        rw [utf8] at hnone
        rw [← encode_utf16Char_of_basic hc (hnul c (by simp)), decode_encode_append, hnone,
          Option.map_none]
      · obtain ⟨a, rest, heq, hlead⟩ := utf8EncodeChar_of_not_basic hc
        rw [heq, List.cons_append]
        exact decode_lead hlead _

/-- The UTF-8 form is modified UTF-8, of the same text, exactly if the text has no
supplementary character. -/
theorem decode_utf8_iff {text : List Char} (hnul : ∀ c ∈ text, c.toNat ≠ 0) :
    decode (utf8 text) = some (utf16 text) ↔ ∀ c ∈ text, Basic c := by
  constructor
  · intro h c hc
    by_contra hnot
    rw [decode_utf8_eq_none hnul ⟨c, hc, hnot⟩] at h
    cases h
  · intro h
    rw [← encode_utf16_of_basic h hnul, decode_encode]

/-- The two forms of a text are the same exactly if it has no supplementary character. -/
theorem encode_utf16_eq_utf8_iff {text : List Char} (hnul : ∀ c ∈ text, c.toNat ≠ 0) :
    encode (utf16 text) = utf8 text ↔ ∀ c ∈ text, Basic c := by
  constructor
  · intro h
    rw [← decode_utf8_iff hnul, ← h, decode_encode]
  · intro h
    exact encode_utf16_of_basic h hnul

end Susrv.Base.ModifiedUtf8
