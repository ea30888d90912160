import Susrv.Native.JniText
import Susrv.Native.Proofs.ProcScan

/-!
# Which texts survive the JNI boundary

The shell reads and prints standard UTF-8, the boundary speaks modified UTF-8.
Commands and lines survive exactly without supplementary characters
(`text_survives_iff`).  A name that `getproclist` lists is found by `getpid`
(`getpid_of_mem_getproclist`).
-/

namespace Susrv.Native

open Base.CString Base.ModifiedUtf8

/-- The bytes of a command that the shell gets, before the framing. -/
def sentText (text : List Char) : Bytes := (LibSusrv_exec (utf16 text)).bytes

theorem getStringUTFChars_eq (string : JavaString) : GetStringUTFChars string = encode string :=
  cstr_eq_self (nul_not_mem_encode string)

/-- A command is sent as UTF-8, and a line is read as the text it is, exactly if they have no
supplementary character. -/
theorem text_survives_iff {command line : List Char} (hcommand : ∀ c ∈ command, c.toNat ≠ 0)
    (hline : ∀ c ∈ line, c.toNat ≠ 0) :
    (sentText command = utf8 command ↔ ∀ c ∈ command, Basic c) ∧
      (LibSusrv_getLastTtyRead (some (utf8 line)) = some (utf16 line) ↔ ∀ c ∈ line, Basic c) := by
  constructor
  · have hsent : sentText command = encode (utf16 command) := getStringUTFChars_eq _
    rw [hsent]
    exact encode_utf16_eq_utf8_iff hcommand
  · have hread : LibSusrv_getLastTtyRead (some (utf8 line)) = decode (utf8 line) := by
      rw [LibSusrv_getLastTtyRead, NewStringUTF, cstr_eq_self (nul_not_mem_utf8 hline)]
    rw [hread]
    exact decode_utf8_iff hline

/-- Characters of one, two and three bytes. -/
theorem text_survives_basic :
    sentText "ls é €".toList = utf8 "ls é €".toList ∧
      LibSusrv_getLastTtyRead (some (utf8 "€\n".toList)) = some (utf16 "€\n".toList) := by
  have hcommand : ∀ c ∈ "ls é €".toList, c.toNat ≠ 0 ∧ Basic c := by simp [Basic]
  have hline : ∀ c ∈ "€\n".toList, c.toNat ≠ 0 ∧ Basic c := by simp [Basic]
  obtain ⟨hsent, hread⟩ := text_survives_iff (fun c hc => (hcommand c hc).1)
    (fun c hc => (hline c hc).1)
  exact ⟨hsent.mpr fun c hc => (hcommand c hc).2, hread.mpr fun c hc => (hline c hc).2⟩

/-- A command with U+1F600 is sent as two surrogates, and a line with it is ill-formed input
for `NewStringUTF`. -/
theorem not_text_survives_supplementary :
    ¬ ∀ command line : List Char, (∀ c ∈ command, c.toNat ≠ 0) → (∀ c ∈ line, c.toNat ≠ 0) →
      sentText command = utf8 command ∧
        LibSusrv_getLastTtyRead (some (utf8 line)) = some (utf16 line) := by
  intro h
  have hface : ∀ c ∈ [Char.ofNat 0x1F600], c.toNat ≠ 0 := by simp
  exact absurd (h _ _ hface hface).1 (by decide +kernel)

/-! ## Names of processes -/

/-- The names in the table come out of it in its order, if they are modified UTF-8. -/
theorem getproclist_names (abi : Abi) (proc : ProcFs)
    (h : ∀ pid ∈ proc.numbers abi, ¬ proc.Unnamed pid) :
    LibSusrv_getproclist abi proc =
      (proc.records abi).mapM fun procdef => NewStringUTF procdef.comm := by
  obtain ⟨t, ht, hholds⟩ := (su_srv_getproclist_eq abi proc).2 _ (collect_of_named proc h)
  simp only [LibSusrv_getproclist, ht, Option.bind_eq_bind, Option.bind_some, hholds.nproc,
    hholds.content]
  rw [List.mapM_map]
  rfl

theorem exists_of_mem_mapM {α β : Type} {f : α → Option β} {l : List α} {l' : List β}
    (h : l.mapM f = some l') {b : β} (hb : b ∈ l') : ∃ a ∈ l, f a = some b := by
  induction l generalizing l' with
  | nil =>
      cases h
      cases hb
  | cons a l ih =>
      rw [List.mapM_cons] at h
      obtain ⟨b', hb', h⟩ := Option.bind_eq_some_iff.mp h
      obtain ⟨rest, hrest, hl'⟩ := Option.bind_eq_some_iff.mp h
      cases hl'
      rcases List.mem_cons.mp hb with rfl | hb
      · exact ⟨a, by simp, hb'⟩
      · obtain ⟨c, hc, hfc⟩ := ih hrest hb
        exact ⟨c, List.mem_cons_of_mem a hc, hfc⟩

theorem ProcFs.nul_not_mem_record (proc : ProcFs) {pid : Int} {procdef : ProcDef}
    (h : proc.record pid = some procdef) : 0 ∉ procdef.comm := by
  obtain ⟨cmdline, -, -, heq⟩ := proc.record_eq_some_iff.mp h
  rw [← heq]
  exact nul_not_mem_commOf cmdline

/-- `getpid` finds what `getproclist` lists: the first process with the same name. -/
theorem getpid_of_mem_getproclist {abi : Abi} {proc : ProcFs}
    (h : ∀ pid ∈ proc.numbers abi, 0 ≤ pid ∧ ¬ proc.Unnamed pid) {names : List JavaString}
    (hnames : LibSusrv_getproclist abi proc = some names) {name : JavaString}
    (hname : name ∈ names) :
    ∃ procdef ∈ proc.records abi, NewStringUTF procdef.comm = some name ∧
      LibSusrv_getpid abi proc name = some procdef.pid := by
  rw [getproclist_names abi proc fun pid hpid => (h pid hpid).2] at hnames
  obtain ⟨listed, hlisted, hstring⟩ := exists_of_mem_mapM hnames hname
  have hnul : 0 ∉ listed.comm := by
    obtain ⟨pid, -, hrecord⟩ := List.mem_filterMap.mp hlisted
    exact proc.nul_not_mem_record hrecord
  -- the name goes back through the boundary as the bytes of the record
  have hchars : GetStringUTFChars name = listed.comm := by
    rw [NewStringUTF, cstr_eq_self hnul, decode_eq_some_iff] at hstring
    rw [getStringUTFChars_eq, hstring]
  rw [LibSusrv_getpid, hchars, su_srv_getpid_eq, pidLookup_eq_find proc listed.comm h]
  obtain ⟨found, hfound⟩ : ∃ found,
      (proc.records abi).find? (·.comm = listed.comm) = some found := by
    rw [← Option.isSome_iff_exists, List.find?_isSome]
    exact ⟨listed, hlisted, by simp⟩
  have hcomm : found.comm = listed.comm := by simpa using List.find?_some hfound
  refine ⟨found, List.mem_of_find?_eq_some hfound, by rw [hcomm, hstring], ?_⟩
  rw [ProcFs.records] at hfound
  rw [hfound]
  rfl

end Susrv.Native
