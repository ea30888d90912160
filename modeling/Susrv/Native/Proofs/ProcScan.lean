import Susrv.Native.ProcScan

/-!
# Process lookup

`readEntry_eq` says once what an entry contributes to either scan: its record, or
an access in front of `proc_entry_str` when its command line begins with a NUL.
From it follow the bounds of both scans (`scans_in_bounds_iff`), the content of the
table and the agreement of the scans (`scans_agree`), and the snapshots and names for
which the lookup finds what it is asked for (`getpid_exact_iff`).
-/

namespace Susrv.Native

open Base.CString

/-! ## One line -/

/-- A string that is not empty can be trimmed. -/
theorem trimLine_eq (abi : Abi) {str : Block} {s : Bytes} (h : StartsWith str (s ++ [0]))
    (hs : 0 ∉ s) (hne : s ≠ []) (hlen : str.length = PROC_ENTRY_SIZE) :
    ∃ str', trimLine abi str = some str' ∧ str'.length = PROC_ENTRY_SIZE ∧
      loadString str' = some (trimmed s) := by
  have hstring : loadString str = some s := by rw [loadString_of_startsWith h, cstr_eq_self hs]
  obtain ⟨t, b, rfl⟩ : ∃ t b, s = t ++ [b] :=
    ⟨s.dropLast, s.getLast hne, (List.dropLast_concat_getLast hne).symm⟩
  rw [List.append_assoc] at h
  have hfits : t.length + 2 ≤ PROC_ENTRY_SIZE := by
    have hle := h.length_le
    rw [hlen, List.length_append] at hle
    exact hle
  have hlast : abi.size_t ((t ++ [b]).length - 1) = t.length := by
    have hpow : (255 : Int) < 2 ^ (8 * abi.sizeofPtr) := by cases abi <;> decide
    rw [PROC_ENTRY_SIZE] at hfits
    rw [Abi.size_t, List.length_append, List.length_singleton, Int.emod_eq_of_lt] <;> omega
  have hbyte : load str t.length = some b := load_of_startsWith h
  have ht : 0 ∉ t := fun hmem => hs (List.mem_append_left _ hmem)
  simp only [trimLine, hstring, hlast, hbyte, Option.bind_eq_bind, Option.bind_some, trimmed,
    List.getLast?_concat, Option.some.injEq, List.dropLast_concat]
  by_cases hLF : b = LF
  · have hstored : StartsWith (str.set t.length (some 0)) (t ++ [0]) :=
      (h.mono (List.prefix_append t _)).set 0 (by omega)
    refine ⟨str.set t.length (some 0), ?_, ?_, ?_⟩
    · rw [if_pos hLF, store_eq_some 0 (by omega)]
    · rw [List.length_set, hlen]
    · rw [if_pos hLF, loadString_of_startsWith hstored, cstr_eq_self ht]
  · exact ⟨str, by rw [if_neg hLF]; rfl, hlen, by rw [if_neg hLF, hstring]⟩

/-- The byte in front of an empty string is not in the array. -/
theorem trimLine_empty (abi : Abi) {str : Block} (h : StartsWith str [0])
    (hlen : str.length = PROC_ENTRY_SIZE) : trimLine abi str = none := by
  have hload : loadString str = some [] := by
    have hstart : StartsWith str ([] ++ [0]) := h
    rw [loadString_of_startsWith hstart]
    rfl
  have hsize : PROC_ENTRY_SIZE ≤ abi.size_t (-1) := by cases abi <;> decide
  have hbyte : load str (abi.size_t (-1)) = none := by
    rw [load, List.getElem?_eq_none (by omega), Option.join_none]
  simp only [trimLine, hload, Option.bind_eq_bind, Option.bind_some]
  change (load str (abi.size_t (-1))).bind _ = none
  rw [hbyte, Option.bind_none]

/-- Reading the line of a command line that is not empty. -/
theorem readLine_eq (abi : Abi) {str : Block} (hlen : str.length = PROC_ENTRY_SIZE)
    {cmdline : Bytes} (hne : cmdline ≠ []) :
    ∃ read, fgets str cmdline = some read ∧
      (cmdline.head? = some 0 → trimLine abi read = none) ∧
      (cmdline.head? ≠ some 0 → ∃ str', trimLine abi read = some str' ∧
        str'.length = PROC_ENTRY_SIZE ∧ loadString str' = some (commOf cmdline)) := by
  have hread : ∃ read, fgets str cmdline = some read := by
    rw [fgets, if_neg hne]
    exact ⟨_, rfl⟩
  obtain ⟨read, hread⟩ := hread
  have hsize : read.length = PROC_ENTRY_SIZE := by
    rw [length_fgets (by rw [hlen]; decide) hread, hlen]
  have hline := startsWith_of_fgets hread
  rw [hlen] at hline
  set line := (firstLine cmdline).take (PROC_ENTRY_SIZE - 1) with hdef
  have hstring : StartsWith read (cstr line ++ [0]) := hline.mono (cstr_terminated line)
  have hcstr : cstr line = [] ↔ cmdline.head? = some 0 := by
    rw [cstr_eq_nil_iff, hdef]
    obtain ⟨b, bs, rfl⟩ := List.exists_cons_of_ne_nil hne
    by_cases hb : b = 10 <;> simp [firstLine, hb, PROC_ENTRY_SIZE]
  refine ⟨read, hread, fun hnul => ?_, fun hnul => ?_⟩
  · rw [hcstr.mpr hnul] at hstring
    exact trimLine_empty abi hstring hsize
  · exact trimLine_eq abi hstring (nul_not_mem_cstr line) (fun h => hnul (hcstr.mp h)) hsize

/-! ## One entry -/

/-- What an entry contributes, by its number. -/
theorem readEntry_eq (abi : Abi) (proc : ProcFs) {str : Block} (hlen : str.length = PROC_ENTRY_SIZE)
    {entry : DirName} {lpid : Int} (hnumber : abi.number entry = some lpid) :
    (proc.Unnamed lpid → readEntry abi proc str entry = none) ∧
      (¬ proc.Unnamed lpid →
        ∃ str', readEntry abi proc str entry = some (str', proc.record lpid) ∧
          str'.length = PROC_ENTRY_SIZE) := by
  simp only [readEntry, hnumber]
  cases hfile : proc.file (proc_entry_path lpid) with
  | none =>
      have hrecord : proc.record lpid = none := by simp [ProcFs.record, ProcFs.cmdline, hfile]
      simp [ProcFs.Unnamed, ProcFs.cmdline, hfile, hrecord, hlen]
  | some cmdline =>
      have hcmdline : proc.cmdline lpid = some cmdline := hfile
      rw [Option.bind_some, ProcFs.Unnamed, hcmdline, Option.bind_some]
      by_cases hne : cmdline = []
      · have hrecord : proc.record lpid = none := by simp [ProcFs.record, hcmdline, hne]
        simp [hne, fgets, hrecord, hlen]
      · have hrecord : proc.record lpid = some ⟨lpid, commOf cmdline⟩ := by
          simp [ProcFs.record, hcmdline, hne]
        obtain ⟨read, hread, hnul, hnamed⟩ := readLine_eq abi hlen hne
        rw [hread, hrecord]
        refine ⟨fun h => ?_, fun h => ?_⟩
        · simp only [hnul h, Option.bind_eq_bind, Option.bind_none]
        · obtain ⟨str', htrim, hsize, hstring⟩ := hnamed h
          refine ⟨str', ?_, hsize⟩
          simp only [htrim, hstring, Option.bind_eq_bind, Option.bind_some]
          rfl

theorem readEntry_of_not_number {abi : Abi} {entry : DirName} (proc : ProcFs) (str : Block)
    (h : abi.number entry = none) : readEntry abi proc str entry = some (str, none) := by
  simp only [readEntry, h]

theorem ProcFs.record_eq_some_iff (proc : ProcFs) {pid : Int} {procdef : ProcDef} :
    proc.record pid = some procdef ↔
      ∃ cmdline, proc.cmdline pid = some cmdline ∧ cmdline ≠ [] ∧
        ⟨pid, commOf cmdline⟩ = procdef := by
  unfold record
  cases hcmdline : proc.cmdline pid with
  | none => simp
  | some cmdline => by_cases hne : cmdline = [] <;> simp [hne]

theorem ProcFs.pid_of_record (proc : ProcFs) {pid : Int} {procdef : ProcDef}
    (h : proc.record pid = some procdef) : procdef.pid = pid := by
  obtain ⟨cmdline, -, -, heq⟩ := proc.record_eq_some_iff.mp h
  rw [← heq]

/-! ## The loops over the numbers of the entries -/

section Loops

variable (abi : Abi) (proc : ProcFs) (procname : Bytes)

/-- `getpid` takes the process for the one it looks for. -/
def ProcFs.Shows (pid : Int) : Prop := (proc.record pid).map ProcDef.comm = some procname

instance (pid : Int) : Decidable (proc.Shows procname pid) := inferInstanceAs (Decidable (_ = _))

/-- The loop of `su_srv_getpid` over numbers. -/
def pidLookup : (procpid : Int) → List Int → Option Int
  | procpid, [] => some procpid
  | procpid, pid :: pids =>
      if procpid < 0 then
        if proc.Unnamed pid then none
        else pidLookup (if proc.Shows procname pid then pid else procpid) pids
      else some procpid

theorem pidLookup_of_nonneg {procpid : Int} (h : ¬ procpid < 0) (pids : List Int) :
    pidLookup proc procname procpid pids = some procpid := by
  cases pids with
  | nil => rfl
  | cons pid pids => rw [pidLookup, if_neg h]

theorem getpidLoop_eq {str : Block} (hlen : str.length = PROC_ENTRY_SIZE) (procpid : Int)
    (entries : List DirName) :
    getpidLoop abi proc procname procpid str entries =
      pidLookup proc procname procpid (entries.filterMap abi.number) := by
  induction entries generalizing str procpid with
  | nil => rfl
  | cons entry entries ih =>
      by_cases hneg : procpid < 0
      · rw [getpidLoop, if_pos hneg]
        cases hnumber : abi.number entry with
        | none =>
            rw [readEntry_of_not_number proc str hnumber, List.filterMap_cons_none hnumber]
            exact ih hlen procpid
        | some pid =>
            obtain ⟨hunnamed, hnamed⟩ := readEntry_eq abi proc hlen hnumber
            rw [List.filterMap_cons_some hnumber, pidLookup, if_pos hneg]
            by_cases h : proc.Unnamed pid
            · rw [hunnamed h, if_pos h]
              rfl
            · obtain ⟨str', hread, hlen'⟩ := hnamed h
              rw [hread, if_neg h]
              cases hrecord : proc.record pid with
              | none =>
                  have hshows : ¬ proc.Shows procname pid := by simp [ProcFs.Shows, hrecord]
                  rw [if_neg hshows]
                  exact ih hlen' procpid
              | some procdef =>
                  have hshows : proc.Shows procname pid ↔ procname = procdef.comm := by
                    simp [ProcFs.Shows, hrecord, eq_comm]
                  rw [if_congr hshows rfl rfl, ← proc.pid_of_record hrecord]
                  exact ih hlen' _
      · rw [pidLookup_of_nonneg proc procname hneg, getpidLoop, if_neg hneg]

/-- The records that the loop of `su_srv_getproclist` collects from numbers. -/
def collect : List Int → Option (List ProcDef)
  | [] => some []
  | pid :: pids =>
      if proc.Unnamed pid then none
      else (collect pids).map ((proc.record pid).toList ++ ·)

/-- The table holds these records. -/
structure ProcTable.Holds (t : ProcTable) (records : List ProcDef) : Prop where
  nproc : t.nproc = records.length
  content : t.proc_table.take records.length = records.map some
  capacity : t.proc_table.length = t.proc_table_n
  fits : records.length ≤ t.proc_table_n

theorem ProcTable.init_holds : ProcTable.init.Holds [] where
  nproc := rfl
  content := rfl
  capacity := by simp [init]
  fits := by simp

/-- Growing keeps the records and makes room for one more. -/
theorem ProcTable.Holds.grow {t : ProcTable} {records : List ProcDef} (h : t.Holds records) :
    t.grow.Holds records ∧ records.length < t.grow.proc_table_n := by
  obtain ⟨hnproc, hcontent, hcapacity, hfits⟩ := h
  unfold ProcTable.grow
  by_cases hroom : t.nproc < t.proc_table_n
  · rw [if_neg (not_not_intro hroom)]
    exact ⟨⟨hnproc, hcontent, hcapacity, hfits⟩, by omega⟩
  · have hkept : t.proc_table.take (t.proc_table_n + PROC_TABLE_INC) = t.proc_table :=
      List.take_of_length_le (by omega)
    rw [if_pos hroom]
    refine ⟨⟨hnproc, ?_, ?_, ?_⟩, ?_⟩
    · change List.take _ (t.proc_table.take _ ++ _) = _
      rw [hkept, List.take_append_of_le_length (by omega), hcontent]
    · change (t.proc_table.take _ ++ _).length = t.proc_table_n + PROC_TABLE_INC
      rw [hkept, List.length_append, List.length_replicate, hcapacity]
      omega
    · change records.length ≤ t.proc_table_n + PROC_TABLE_INC
      omega
    · change records.length < t.proc_table_n + PROC_TABLE_INC
      rw [PROC_TABLE_INC]
      omega

/-- With room for it a record is stored behind the others. -/
theorem ProcTable.Holds.push {t : ProcTable} {records : List ProcDef} (h : t.Holds records)
    (hroom : records.length < t.proc_table_n) (procdef : ProcDef) :
    ∃ t', t.push procdef = some t' ∧ t'.Holds (records ++ [procdef]) := by
  obtain ⟨hnproc, hcontent, hcapacity, hfits⟩ := h
  have hindex : records.length < t.proc_table.length := by omega
  refine ⟨_, by rw [ProcTable.push, if_pos (by omega)], ?_, ?_, ?_, ?_⟩
  · simp [hnproc]
  · rw [List.length_append, List.length_singleton, hnproc, List.take_add_one,
      List.take_set_of_le (le_refl _), hcontent, List.getElem?_set_self hindex]
    simp
  · rw [List.length_set]
    exact hcapacity
  · rw [List.length_append, List.length_singleton]
    exact hroom

/-- The loop of `su_srv_getproclist` is stuck where `collect` is, and otherwise adds what
`collect` finds to the table. -/
theorem getproclistLoop_eq {str : Block} (hlen : str.length = PROC_ENTRY_SIZE) {t : ProcTable}
    {records : List ProcDef} (ht : t.Holds records) (entries : List DirName) :
    (collect proc (entries.filterMap abi.number) = none →
        getproclistLoop abi proc t str entries = none) ∧
      ∀ more, collect proc (entries.filterMap abi.number) = some more →
        ∃ t', getproclistLoop abi proc t str entries = some t' ∧ t'.Holds (records ++ more) := by
  induction entries generalizing str t records with
  | nil =>
      refine ⟨fun h => absurd h (by simp [collect]), fun more h => ⟨t, rfl, ?_⟩⟩
      cases h
      rw [List.append_nil]
      exact ht
  | cons entry entries ih =>
      rw [getproclistLoop]
      cases hnumber : abi.number entry with
      | none =>
          rw [readEntry_of_not_number proc str hnumber, List.filterMap_cons_none hnumber]
          exact ih hlen ht
      | some pid =>
          obtain ⟨hunnamed, hnamed⟩ := readEntry_eq abi proc hlen hnumber
          rw [List.filterMap_cons_some hnumber, collect]
          by_cases h : proc.Unnamed pid
          · rw [hunnamed h, if_pos h]
            exact ⟨fun _ => rfl, fun more hmore => absurd hmore (by simp)⟩
          · obtain ⟨str', hread, hlen'⟩ := hnamed h
            rw [hread, if_neg h, Option.map_eq_none_iff]
            simp only [Option.map_eq_some_iff]
            cases hrecord : proc.record pid with
            | none =>
                obtain ⟨hstuck, hfound⟩ := ih hlen' ht
                refine ⟨hstuck, ?_⟩
                rintro _ ⟨more, hmore, rfl⟩
                exact hfound more hmore
            | some procdef =>
                obtain ⟨hgrown, hroom⟩ := ht.grow
                obtain ⟨t', hpush, ht'⟩ := hgrown.push hroom procdef
                obtain ⟨hstuck, hfound⟩ := ih hlen' ht'
                simp only [Option.bind_eq_bind, Option.bind_some, hpush]
                refine ⟨hstuck, ?_⟩
                rintro _ ⟨more, hmore, rfl⟩
                obtain ⟨t'', hloop, ht''⟩ := hfound more hmore
                rw [List.append_assoc] at ht''
                exact ⟨t'', hloop, ht''⟩

/-! ## `collect` and `pidLookup` -/

theorem collect_eq_none_iff (pids : List Int) :
    collect proc pids = none ↔ ∃ pid ∈ pids, proc.Unnamed pid := by
  induction pids with
  | nil => simp [collect]
  | cons pid pids ih => by_cases h : proc.Unnamed pid <;> simp [collect, h, ih]

theorem collect_of_named {pids : List Int} (h : ∀ pid ∈ pids, ¬ proc.Unnamed pid) :
    collect proc pids = some (pids.filterMap proc.record) := by
  induction pids with
  | nil => rfl
  | cons pid pids ih =>
      rw [collect, if_neg (h pid (by simp)), ih fun p hp => h p (by simp [hp]), Option.map_some]
      cases hrecord : proc.record pid with
      | none => rw [List.filterMap_cons_none hrecord]; rfl
      | some procdef => rw [List.filterMap_cons_some hrecord]; rfl

/-- The lookup goes on behind this number. -/
def ProcFs.Passes (pid : Int) : Prop :=
  ¬ proc.Unnamed pid ∧ ¬ (0 ≤ pid ∧ proc.Shows procname pid)

instance (pid : Int) : Decidable (proc.Passes procname pid) := inferInstanceAs (Decidable (_ ∧ _))

/-- What the lookup has found in numbers that it has passed: the last one taken. -/
def lastShown (procpid : Int) (pids : List Int) : Int :=
  ((pids.filter fun pid => proc.Shows procname pid).getLast?).getD procpid

theorem pidLookup_append {pids : List Int} (h : ∀ pid ∈ pids, proc.Passes procname pid)
    {procpid : Int} (hneg : procpid < 0) (rest : List Int) :
    pidLookup proc procname procpid (pids ++ rest) =
        pidLookup proc procname (lastShown proc procname procpid pids) rest ∧
      lastShown proc procname procpid pids < 0 := by
  induction pids generalizing procpid with
  | nil => exact ⟨rfl, hneg⟩
  | cons pid pids ih =>
      obtain ⟨hnamed, hquiet⟩ := h pid (by simp)
      have hrest : ∀ q ∈ pids, proc.Passes procname q := fun q hq => h q (by simp [hq])
      rw [List.cons_append, pidLookup, if_pos hneg, if_neg hnamed, lastShown, List.filter_cons]
      by_cases hshows : proc.Shows procname pid
      · have hpid : pid < 0 := by
          by_contra hge
          exact hquiet ⟨by omega, hshows⟩
        have hlast := ih hrest hpid
        rw [if_pos hshows, if_pos (by simpa using hshows), List.getLast?_cons]
        exact hlast
      · rw [if_neg hshows, if_neg (by simpa using hshows)]
        exact ih hrest hneg

/-- At a number that it does not pass the lookup is stuck, or ends with that number. -/
theorem pidLookup_of_not_passes {pid : Int} (h : ¬ proc.Passes procname pid) {procpid : Int}
    (hneg : procpid < 0) (rest : List Int) :
    (proc.Unnamed pid → pidLookup proc procname procpid (pid :: rest) = none) ∧
      (¬ proc.Unnamed pid → 0 ≤ pid ∧ proc.Shows procname pid ∧
        pidLookup proc procname procpid (pid :: rest) = some pid) := by
  rw [pidLookup, if_pos hneg]
  refine ⟨fun hunnamed => if_pos hunnamed, fun hnamed => ?_⟩
  have hfound : 0 ≤ pid ∧ proc.Shows procname pid := by
    by_contra hnot
    exact h ⟨hnamed, hnot⟩
  rw [if_neg hnamed, if_pos hfound.2, pidLookup_of_nonneg proc procname (by omega)]
  exact ⟨hfound.1, hfound.2, rfl⟩

/-- The lookup gets stuck exactly at a number that it comes to and that has no name. -/
theorem pidLookup_eq_none_iff {procpid : Int} (hneg : procpid < 0) (pids : List Int) :
    pidLookup proc procname procpid pids = none ↔
      ∃ before pid after, pids = before ++ pid :: after ∧
        (∀ q ∈ before, ¬ (0 ≤ q ∧ proc.Shows procname q)) ∧ proc.Unnamed pid := by
  induction pids generalizing procpid with
  | nil => simp [pidLookup]
  | cons pid pids ih =>
      by_cases hunnamed : proc.Unnamed pid
      · rw [pidLookup, if_pos hneg, if_pos hunnamed]
        exact iff_of_true rfl ⟨[], pid, pids, rfl, by simp, hunnamed⟩
      · have hcons : (∃ before p after, pid :: pids = before ++ p :: after ∧
            (∀ q ∈ before, ¬ (0 ≤ q ∧ proc.Shows procname q)) ∧ proc.Unnamed p) ↔
            ¬ (0 ≤ pid ∧ proc.Shows procname pid) ∧
              ∃ before p after, pids = before ++ p :: after ∧
                (∀ q ∈ before, ¬ (0 ≤ q ∧ proc.Shows procname q)) ∧ proc.Unnamed p := by
          constructor
          · rintro ⟨before, p, after, heq, hbefore, hp⟩
            cases before with
            | nil =>
                cases heq
                exact absurd hp hunnamed
            | cons q before =>
                cases heq
                exact ⟨hbefore _ (by simp), before, p, after, rfl,
                  fun r hr => hbefore r (by simp [hr]), hp⟩
          · rintro ⟨hpid, before, p, after, rfl, hbefore, hp⟩
            exact ⟨pid :: before, p, after, rfl, List.forall_mem_cons.mpr ⟨hpid, hbefore⟩, hp⟩
        rw [hcons, pidLookup, if_pos hneg, if_neg hunnamed]
        by_cases hfound : 0 ≤ pid ∧ proc.Shows procname pid
        · rw [if_pos hfound.2, pidLookup_of_nonneg proc procname (by omega)]
          simp [hfound]
        · rw [and_iff_right hfound]
          apply ih
          split
          · rename_i hshows
            by_contra hge
            exact hfound ⟨by omega, hshows⟩
          · exact hneg

end Loops

/-! ## The bounds of the accesses -/

theorem su_srv_getpid_eq (abi : Abi) (proc : ProcFs) (procname : Bytes) :
    su_srv_getpid abi proc procname = pidLookup proc procname (-1) (proc.numbers abi) := by
  unfold su_srv_getpid ProcFs.numbers
  cases proc.dir with
  | none => rfl
  | some entries => exact getpidLoop_eq abi proc procname (by simp [malloc]) (-1) entries

theorem su_srv_getproclist_eq (abi : Abi) (proc : ProcFs) :
    (collect proc (proc.numbers abi) = none → su_srv_getproclist abi proc = none) ∧
      ∀ records, collect proc (proc.numbers abi) = some records →
        ∃ t, su_srv_getproclist abi proc = some t ∧ t.Holds records := by
  unfold su_srv_getproclist ProcFs.numbers
  cases proc.dir with
  | none =>
      refine ⟨fun h => absurd h (by simp [collect]), fun records h => ⟨_, rfl, ?_⟩⟩
      cases h
      exact ProcTable.init_holds
  | some entries =>
      exact getproclistLoop_eq abi proc (by simp [malloc]) ProcTable.init_holds entries

/-- The lookup comes to this number: no number before it has ended the loop. -/
def ProcFs.Reached (abi : Abi) (proc : ProcFs) (procname : Bytes) (pid : Int) : Prop :=
  ∃ before after, proc.numbers abi = before ++ pid :: after ∧
    ∀ q ∈ before, ¬ (0 ≤ q ∧ proc.Shows procname q)

/-- The scans stay within `proc_entry_str` and `proc_table` exactly if no command line
that they read begins with a NUL. -/
theorem scans_in_bounds_iff (abi : Abi) (proc : ProcFs) :
    (su_srv_getproclist abi proc ≠ none ↔ ∀ pid ∈ proc.numbers abi, ¬ proc.Unnamed pid) ∧
      ∀ procname, su_srv_getpid abi proc procname ≠ none ↔
        ∀ pid, proc.Reached abi procname pid → ¬ proc.Unnamed pid := by
  constructor
  · obtain ⟨hstuck, hfound⟩ := su_srv_getproclist_eq abi proc
    cases hcollect : collect proc (proc.numbers abi) with
    | none =>
        obtain ⟨pid, hpid, hunnamed⟩ := (collect_eq_none_iff proc _).mp hcollect
        exact iff_of_false (fun h => h (hstuck hcollect)) fun h => h pid hpid hunnamed
    | some records =>
        obtain ⟨t, ht, -⟩ := hfound records hcollect
        refine iff_of_true (by simp [ht]) fun pid hpid hunnamed => ?_
        have hnone := (collect_eq_none_iff proc _).mpr ⟨pid, hpid, hunnamed⟩
        rw [hcollect] at hnone
        cases hnone
  · intro procname
    rw [su_srv_getpid_eq, ne_eq, pidLookup_eq_none_iff proc procname (by decide)]
    constructor
    · rintro h pid ⟨before, after, hpids, hbefore⟩ hunnamed
      exact h ⟨before, pid, after, hpids, hbefore, hunnamed⟩
    · rintro h ⟨before, pid, after, hpids, hbefore, hunnamed⟩
      exact h pid ⟨before, after, hpids, hbefore⟩ hunnamed

/-- A process that has been started with an empty name. -/
theorem not_scans_in_bounds_empty_name :
    ¬ ∀ (abi : Abi) (proc : ProcFs), su_srv_getproclist abi proc ≠ none ∧
      ∀ procname, su_srv_getpid abi proc procname ≠ none := by
  intro h
  have hseven := h .lp64 ⟨some [⟨ascii "7", by decide, by decide⟩], fun _ => some [0]⟩
  exact hseven.1 (by decide +kernel)

/-! ## The two scans -/

/-- Without numbers below zero the lookup ends at the first record that has the name. -/
theorem pidLookup_eq_find (proc : ProcFs) (procname : Bytes) {pids : List Int}
    (h : ∀ pid ∈ pids, 0 ≤ pid ∧ ¬ proc.Unnamed pid) :
    pidLookup proc procname (-1) pids =
      some ((((pids.filterMap proc.record).find? (·.comm = procname)).map ProcDef.pid).getD
        (-1)) := by
  induction pids with
  | nil => rfl
  | cons pid pids ih =>
      obtain ⟨hpid, hnamed⟩ := h pid (by simp)
      have hrest := ih fun q hq => h q (by simp [hq])
      rw [pidLookup, if_pos (by decide), if_neg hnamed]
      cases hrecord : proc.record pid with
      | none =>
          have hshows : ¬ proc.Shows procname pid := by simp [ProcFs.Shows, hrecord]
          rw [if_neg hshows, List.filterMap_cons_none hrecord, hrest]
      | some procdef =>
          rw [List.filterMap_cons_some hrecord]
          by_cases hcomm : procdef.comm = procname
          · have hshows : proc.Shows procname pid := by simp [ProcFs.Shows, hrecord, hcomm]
            rw [if_pos hshows, pidLookup_of_nonneg proc procname (by omega),
              List.find?_cons_of_pos (by simpa using hcomm), Option.map_some, Option.getD_some,
              proc.pid_of_record hrecord]
          · have hshows : ¬ proc.Shows procname pid := by simp [ProcFs.Shows, hrecord, hcomm]
            rw [if_neg hshows, List.find?_cons_of_neg (by simpa using hcomm), hrest]

/-- The table is the records of `/proc`, and the lookup finds the first of them that has
the name. -/
theorem scans_agree (abi : Abi) (proc : ProcFs)
    (h : ∀ pid ∈ proc.numbers abi, 0 ≤ pid ∧ ¬ proc.Unnamed pid) :
    ∃ t, su_srv_getproclist abi proc = some t ∧ t.nproc = (proc.records abi).length ∧
      t.proc_table.take t.nproc = (proc.records abi).map some ∧
      ∀ procname, su_srv_getpid abi proc procname =
        some ((((proc.records abi).find? (·.comm = procname)).map ProcDef.pid).getD (-1)) := by
  have hcollect := collect_of_named proc fun pid hpid => (h pid hpid).2
  obtain ⟨t, ht, hholds⟩ := (su_srv_getproclist_eq abi proc).2 _ hcollect
  refine ⟨t, ht, hholds.nproc, ?_, fun procname => ?_⟩
  · rw [hholds.nproc]
    exact hholds.content
  · rw [su_srv_getpid_eq, pidLookup_eq_find proc procname h]
    rfl

/-- Two processes among other entries; the second has an argument. -/
def twoProcesses : ProcFs where
  dir := some [⟨ascii "self", by decide, by decide⟩, ⟨ascii "1", by decide, by decide⟩,
    ⟨ascii "42", by decide, by decide⟩]
  file path :=
    if path = ascii "/proc/1/cmdline" then some (ascii "/init" ++ [0])
    else if path = ascii "/proc/42/cmdline" then some (ascii "sh" ++ [0] ++ ascii "-l" ++ [0])
    else none

theorem scans_agree_two_processes :
    ∃ t, su_srv_getproclist .ilp32 twoProcesses = some t ∧
      t.nproc = (twoProcesses.records .ilp32).length ∧
      t.proc_table.take t.nproc = (twoProcesses.records .ilp32).map some ∧
      ∀ procname, su_srv_getpid .ilp32 twoProcesses procname =
        some ((((twoProcesses.records .ilp32).find? (·.comm = procname)).map ProcDef.pid).getD
          (-1)) :=
  scans_agree .ilp32 twoProcesses (by decide +kernel)

/-! ## The lookup by name -/

theorem trimmed_isPrefix (s : Bytes) : trimmed s <+: s := by
  rw [trimmed]
  split
  · exact List.dropLast_prefix s
  · exact List.prefix_refl s

theorem nul_not_mem_commOf (cmdline : Bytes) : 0 ∉ commOf cmdline := by
  intro hmem
  exact nul_not_mem_cstr _ ((trimmed_isPrefix _).subset hmem)

/-- The name that is compared is that of the command line exactly if it fits in one line
of `proc_entry_str`. -/
theorem commOf_eq_cstr_iff (cmdline : Bytes) :
    commOf cmdline = cstr cmdline ↔
      LF ∉ cstr cmdline ∧ (cstr cmdline).length ≤ PROC_ENTRY_SIZE - 1 := by
  rw [commOf, cstr_take_firstLine]
  set name := cstr cmdline
  constructor
  · intro heq
    have hlen := (trimmed_isPrefix ((firstLine name).take (PROC_ENTRY_SIZE - 1))).length_le
    rw [heq, List.length_take] at hlen
    refine ⟨fun hLF => ?_, by omega⟩
    obtain ⟨line, rest, hline, hname, hfirst⟩ := firstLine_eq_append hLF
    have hlong : name.length = line.length + 1 + rest.length := by
      rw [hname, List.length_append, List.length_cons]
      omega
    have hfits : (firstLine name).take (PROC_ENTRY_SIZE - 1) = line ++ [10] := by
      rw [hfirst, List.take_of_length_le]
      rw [List.length_append, List.length_singleton]
      omega
    have htrimmed : trimmed (line ++ [10]) = line := by simp [trimmed, LF]
    rw [hfits, htrimmed] at heq
    rw [← heq] at hlong
    omega
  · rintro ⟨hLF, hlen⟩
    rw [firstLine_eq_self hLF, List.take_of_length_le hlen, trimmed, if_neg]
    intro hlast
    exact hLF (List.mem_of_getLast? hlast)

section Lookup

variable (abi : Abi) (proc : ProcFs) (procname : Bytes)

/-- The first string of the command line is this name. -/
def ProcFs.Named (pid : Int) : Prop := (proc.cmdline pid).map cstr = some procname

instance (pid : Int) : Decidable (proc.Named procname pid) := inferInstanceAs (Decidable (_ = _))

/-- The process that the lookup is meant to find. -/
def ProcFs.firstNamed : Option Int :=
  (proc.numbers abi).find? fun pid => proc.Named procname pid

/-- The lookup returns the first process that has the name, and -1 exactly if there is none. -/
def GetpidExact : Prop :=
  ∃ result, su_srv_getpid abi proc procname = some result ∧
    (∀ pid ∈ proc.firstNamed abi procname, result = pid) ∧
    (result = -1 ↔ proc.firstNamed abi procname = none)

/-- A name that `proc_entry_str` can hold in one line. -/
def FitsLine (name : Bytes) : Prop := name ≠ [] ∧ LF ∉ name ∧ name.length ≤ PROC_ENTRY_SIZE - 1

/-- The lookup passes every number before the process, and `proc_entry_str` can hold the
name.  A negative number that is taken does not end the loop: there it has to be the last one. -/
def Findable : Prop :=
  match proc.firstNamed abi procname with
  | some first =>
      if 0 ≤ first then
        FitsLine procname ∧
          ∀ pid ∈ (proc.numbers abi).takeWhile fun pid => ¬ proc.Named procname pid,
            proc.Passes procname pid
      else
        first ≠ -1 ∧ (∀ pid ∈ proc.numbers abi, proc.Passes procname pid) ∧
          lastShown proc procname (-1) (proc.numbers abi) = first
  | none =>
      (∀ pid ∈ proc.numbers abi, proc.Passes procname pid) ∧
        lastShown proc procname (-1) (proc.numbers abi) = -1

variable {abi proc procname}

/-- A process that has the name is taken for it exactly if the name fits. -/
theorem shows_iff_fitsLine {pid : Int} (h : proc.Named procname pid) :
    ¬ proc.Unnamed pid ∧ proc.Shows procname pid ↔ FitsLine procname := by
  rw [ProcFs.Named, Option.map_eq_some_iff] at h
  obtain ⟨cmdline, hcmdline, rfl⟩ := h
  rw [FitsLine, ← commOf_eq_cstr_iff, ne_eq, cstr_eq_nil_iff, ProcFs.Unnamed, ProcFs.Shows,
    ProcFs.record, hcmdline, Option.bind_some]
  by_cases hne : cmdline = []
  · simp [hne]
  · simp [hne]

/-- A number that is not passed leaves the lookup stuck, or ends it. -/
theorem pidLookup_of_exists_not_passes {pids : List Int}
    (h : ∃ pid ∈ pids, ¬ proc.Passes procname pid) {procpid : Int} (hneg : procpid < 0)
    (rest : List Int) :
    pidLookup proc procname procpid (pids ++ rest) = none ∨
      ∃ pid ∈ pids, 0 ≤ pid ∧ pidLookup proc procname procpid (pids ++ rest) = some pid := by
  induction pids generalizing procpid with
  | nil => simp at h
  | cons pid pids ih =>
      by_cases hpid : proc.Passes procname pid
      · have hrest : ∃ q ∈ pids, ¬ proc.Passes procname q := by
          obtain ⟨q, hq, hnot⟩ := h
          rcases List.mem_cons.mp hq with rfl | hq
          · exact absurd hpid hnot
          · exact ⟨q, hq, hnot⟩
        have hsingle : ∀ q ∈ [pid], proc.Passes procname q := by simpa using hpid
        obtain ⟨hlookup, hneg'⟩ := pidLookup_append proc procname hsingle hneg (pids ++ rest)
        rw [List.cons_append, ← List.singleton_append, hlookup]
        refine (ih hrest hneg').imp_right ?_
        rintro ⟨q, hq, hge, hfound⟩
        exact ⟨q, List.mem_cons_of_mem _ hq, hge, hfound⟩
      · obtain ⟨hstuck, hfound⟩ := pidLookup_of_not_passes proc procname hpid hneg (pids ++ rest)
        rw [List.cons_append]
        by_cases hunnamed : proc.Unnamed pid
        · exact .inl (hstuck hunnamed)
        · obtain ⟨hge, -, hlookup⟩ := hfound hunnamed
          exact .inr ⟨pid, by simp, hge, hlookup⟩

/-- What the lookup returns has been taken, unless it is what the lookup began with. -/
theorem shows_of_pidLookup {procpid result : Int} {pids : List Int}
    (h : pidLookup proc procname procpid pids = some result) :
    result = procpid ∨ proc.Shows procname result := by
  induction pids generalizing procpid with
  | nil =>
      cases h
      exact .inl rfl
  | cons pid pids ih =>
      rw [pidLookup] at h
      split at h
      · split at h
        · cases h
        · rcases ih h with hstart | hshows
          · split at hstart
            · rename_i hpid
              exact .inr (hstart ▸ hpid)
            · exact .inl hstart
          · exact .inr hshows
      · cases h
        exact .inl rfl

/-- A process with a number that ends the loop is found if the lookup sees it. -/
theorem pidLookup_eq_first_iff {procpid first : Int} (hneg : procpid < 0) (hge : 0 ≤ first)
    (after : List Int) :
    pidLookup proc procname procpid (first :: after) = some first ↔
      ¬ proc.Unnamed first ∧ proc.Shows procname first := by
  rw [pidLookup, if_pos hneg]
  constructor
  · intro heq
    split at heq
    · cases heq
    · rename_i hnamed
      refine ⟨hnamed, ?_⟩
      by_contra hshows
      rw [if_neg hshows] at heq
      rcases shows_of_pidLookup heq with hlast | htaken
      · omega
      · exact hshows htaken
  · rintro ⟨hnamed, hshows⟩
    rw [if_neg hnamed, if_pos hshows, pidLookup_of_nonneg proc procname (by omega)]

theorem getpid_of_passes (h : ∀ pid ∈ proc.numbers abi, proc.Passes procname pid) :
    su_srv_getpid abi proc procname =
      some (lastShown proc procname (-1) (proc.numbers abi)) := by
  have hlookup := (pidLookup_append proc procname h (by decide : (-1 : Int) < 0) []).1
  rw [List.append_nil] at hlookup
  rw [su_srv_getpid_eq, hlookup]
  rfl

/-- A negative result is that of a lookup which nothing has ended. -/
theorem getpid_eq_neg_iff {result : Int} (hneg : result < 0) :
    su_srv_getpid abi proc procname = some result ↔
      (∀ pid ∈ proc.numbers abi, proc.Passes procname pid) ∧
        lastShown proc procname (-1) (proc.numbers abi) = result := by
  by_cases hpass : ∀ pid ∈ proc.numbers abi, proc.Passes procname pid
  · rw [getpid_of_passes hpass, Option.some.injEq, and_iff_right hpass]
  · have hexists : ∃ pid ∈ proc.numbers abi, ¬ proc.Passes procname pid := by simpa using hpass
    have hlookup := pidLookup_of_exists_not_passes hexists (by decide : (-1 : Int) < 0) []
    rw [List.append_nil, ← su_srv_getpid_eq] at hlookup
    refine iff_of_false (fun heq => ?_) fun h => hpass h.1
    rcases hlookup with hnone | ⟨pid, -, hge, hpid⟩
    · rw [heq] at hnone
      cases hnone
    · rw [heq, Option.some.injEq] at hpid
      omega

/-- When the process has a number that ends the loop, the lookup has to come to it and see it. -/
theorem getpid_eq_first_iff {first : Int} (hfirst : proc.firstNamed abi procname = some first)
    (hge : 0 ≤ first) :
    su_srv_getpid abi proc procname = some first ↔
      FitsLine procname ∧
        ∀ pid ∈ (proc.numbers abi).takeWhile fun pid => ¬ proc.Named procname pid,
          proc.Passes procname pid := by
  rw [ProcFs.firstNamed, List.find?_eq_some_iff_append] at hfirst
  obtain ⟨hnamed, before, after, hpids, hbefore⟩ := hfirst
  rw [decide_eq_true_eq] at hnamed
  have hunnamed : ∀ pid ∈ before, ¬ proc.Named procname pid := by simpa using hbefore
  have htake : (proc.numbers abi).takeWhile (fun pid => ¬ proc.Named procname pid) = before := by
    rw [hpids, List.takeWhile_append_of_pos (by simpa using hunnamed),
      List.takeWhile_cons_of_neg (by simpa using hnamed), List.append_nil]
  have hstart : (-1 : Int) < 0 := by decide
  rw [htake, su_srv_getpid_eq, hpids]
  by_cases hpass : ∀ pid ∈ before, proc.Passes procname pid
  · obtain ⟨hlookup, hneg⟩ := pidLookup_append proc procname hpass hstart (first :: after)
    rw [hlookup, and_iff_left hpass, ← shows_iff_fitsLine hnamed]
    exact pidLookup_eq_first_iff hneg hge after
  · have hexists : ∃ pid ∈ before, ¬ proc.Passes procname pid := by simpa using hpass
    refine iff_of_false (fun heq => ?_) fun h => hpass h.2
    rcases pidLookup_of_exists_not_passes hexists hstart (first :: after) with
      hnone | ⟨pid, hpid, -, hfound⟩
    · rw [hnone] at heq
      cases heq
    · rw [hfound, Option.some.injEq] at heq
      exact hunnamed pid hpid (heq ▸ hnamed)

theorem getpidExact_of_none (h : proc.firstNamed abi procname = none) :
    GetpidExact abi proc procname ↔ su_srv_getpid abi proc procname = some (-1) := by
  unfold GetpidExact
  rw [h]
  constructor
  · rintro ⟨result, hresult, -, hneg⟩
    rw [hresult, hneg.mpr rfl]
  · intro hresult
    exact ⟨-1, hresult, by simp, by simp⟩

theorem getpidExact_of_some {first : Int} (h : proc.firstNamed abi procname = some first) :
    GetpidExact abi proc procname ↔
      first ≠ -1 ∧ su_srv_getpid abi proc procname = some first := by
  unfold GetpidExact
  rw [h]
  constructor
  · rintro ⟨result, hresult, hfirst, hneg⟩
    have heq : result = first := hfirst first rfl
    rw [heq] at hresult hneg
    refine ⟨fun hminus => ?_, hresult⟩
    have hnone := hneg.mp hminus
    cases hnone
  · rintro ⟨hminus, hresult⟩
    refine ⟨first, hresult, ?_, iff_of_false hminus (by simp)⟩
    rintro pid hpid
    exact Option.some.inj hpid

end Lookup

/-- For every name the lookup is exact exactly if the process is findable. -/
theorem getpid_exact_iff (abi : Abi) (proc : ProcFs) (procname : Bytes) :
    GetpidExact abi proc procname ↔ Findable abi proc procname := by
  unfold Findable
  split
  · rename_i first hfirst
    rw [getpidExact_of_some hfirst]
    split
    · rename_i hge
      rw [← getpid_eq_first_iff hfirst hge, and_iff_right (by omega)]
    · rw [getpid_eq_neg_iff (by omega)]
  · rename_i hnone
    rw [getpidExact_of_none hnone, getpid_eq_neg_iff (by decide)]

/-- A process whose name has a line feed in it, and nothing else in `/proc`. -/
def lineFeedName : ProcFs where
  dir := some [⟨ascii "7", by decide, by decide⟩]
  file _ := some (ascii "a\nb" ++ [0])

theorem not_getpid_exact_line_feed :
    ¬ ∀ (abi : Abi) (proc : ProcFs) (procname : Bytes), GetpidExact abi proc procname := by
  intro h
  obtain ⟨result, hresult, hfirst, -⟩ := h .lp64 lineFeedName (ascii "a\nb")
  have hseven : lineFeedName.firstNamed .lp64 (ascii "a\nb") = some 7 := by decide +kernel
  have hmissed : su_srv_getpid .lp64 lineFeedName (ascii "a\nb") = some (-1) := by
    decide +kernel
  rw [hmissed, Option.some.injEq] at hresult
  exact absurd (hfirst 7 hseven) (by rw [← hresult]; decide)

end Susrv.Native
