import Susrv.Native.PrivateFs

/-!
# What setting up the private file system does

One call keeps the tree, makes a directory or, for `tmp`, removes an empty one
(`DirStep`); a call that returns 0 leaves the tree that `ensureDir` describes.  The
result follows by induction over the chain of calls: `pfs_init_prepares_iff` says when
the directories are all there, `pfs_init_harmless` what else may change and that a
second run changes nothing.
-/

namespace Susrv.Native

open Base.CString Base.FileSystem Base.FileSystem.Tree

variable {γ : Type*} [DecidableEq γ] {env : DirEnv} {envs : PfsDir → DirEnv}
  {ctx : Context Bytes} {path : Path Bytes} {pfs_root name : Bytes} {clr : Bool}
  {tree tree' : Tree Bytes γ} {dir : PfsDir} {dirs : List PfsDir} {last_err : Int}

/-! ## The path of a directory -/

theorem length_dir_fmt (dir : PfsDir) : dir.dir_fmt.length = dir.dir_wlen := by
  cases dir <;> decide

theorem dirPath_eq_snoc (pfs_root : Bytes) (dir : PfsDir) :
    ∃ parent name, dirPath pfs_root dir = Path.snoc parent name := by
  have hsplit : ∃ before name, dir.dir_fmt = before ++ 47 :: name ∧ 47 ∉ name ∧
      Step.ofName name = some (.down name) := by
    cases dir with
    | var => exact ⟨[], ascii "var", by decide⟩
    | run => exact ⟨ascii "/var", ascii "run", by decide⟩
    | log => exact ⟨ascii "/var", ascii "log", by decide⟩
    | bin => exact ⟨[], ascii "bin", by decide⟩
    | lib => exact ⟨[], ascii "lib", by decide⟩
    | tmp => exact ⟨[], ascii "tmp", by decide⟩
  obtain ⟨before, name, hfmt, hslash, hname⟩ := hsplit
  obtain ⟨parent, hparent⟩ := Path.ofBytes_append hslash hname (pfs_root ++ before)
  refine ⟨parent, name, ?_⟩
  rw [dirPath, hfmt, ← List.append_assoc, hparent]

/-- The buffer holds the whole path. -/
theorem initDir_eq (envs : PfsDir → DirEnv) (ctx : Context Bytes) (pfs_root : Bytes)
    (dir : PfsDir) (tree : Tree Bytes γ) :
    initDir envs ctx pfs_root dir tree =
      if (envs dir).malloc then
        let path := dirPath pfs_root dir
        let made := makeDir (envs dir) ctx path (clearDir (envs dir) ctx path dir.clr tree)
        some (checkDir (envs dir) ctx path made, made)
      else some (-1, tree) := by
  have hprinted : snprintf (pfs_root.length + dir.dir_wlen + 1) (pfs_root ++ dir.dir_fmt) =
      some (pfs_root ++ dir.dir_fmt) := by
    rw [snprintf_eq_self_iff, List.length_append, length_dir_fmt]
    omega
  rw [initDir, pfs_init_dir, hprinted]
  rfl

/-! ## One call -/

/-- What one call may do to the tree. -/
inductive DirStep (ctx : Context Bytes) (path : Path Bytes) (clr : Bool)
    (tree : Tree Bytes γ) : Tree Bytes γ → Prop
  | kept : DirStep ctx path clr tree tree
  | made (loc : Loc Bytes) : tree.place ctx path = some loc → tree.CanPut loc →
      DirStep ctx path clr tree (tree.put loc .dir)
  | removed (loc : Loc Bytes) : clr = true → tree.place ctx path = some loc →
      tree.CanRemove loc → DirStep ctx path clr tree (tree.remove loc)

theorem makeDir_eq_or (env : DirEnv) (ctx : Context Bytes) (path : Path Bytes)
    (tree : Tree Bytes γ) :
    makeDir env ctx path tree = tree ∨ makeDir env ctx path tree = tree.mkdir ctx path := by
  unfold makeDir
  split
  · exact .inl rfl
  · split
    · exact .inr rfl
    · exact .inl rfl

theorem clearDir_eq_or (env : DirEnv) (ctx : Context Bytes) (path : Path Bytes) (clr : Bool)
    (tree : Tree Bytes γ) :
    clearDir env ctx path clr tree = tree ∨
      clr = true ∧ clearDir env ctx path clr tree = tree.rmdir ctx path := by
  unfold clearDir
  split
  · rename_i h
    rw [Bool.and_eq_true] at h
    exact .inr ⟨h.1, rfl⟩
  · exact .inl rfl

theorem dirStep_makeDir : DirStep ctx path clr tree (makeDir env ctx path tree) := by
  rcases makeDir_eq_or env ctx path tree with hsame | hmade
  · rw [hsame]
    exact .kept
  · rcases tree.mkdir_cases ctx path with hsame | ⟨loc, hplace, hput, hnew⟩
    · rw [hmade, hsame]
      exact .kept
    · rw [hmade, hnew]
      exact .made loc hplace hput

theorem dirStep_clear_make :
    DirStep ctx (path.snoc name) clr tree
      (makeDir env ctx (path.snoc name) (clearDir env ctx (path.snoc name) clr tree)) := by
  rcases clearDir_eq_or env ctx (path.snoc name) clr tree with hsame | ⟨hclr, hcleared⟩
  · rw [hsame]
    exact dirStep_makeDir
  · rw [hcleared]
    rcases tree.rmdir_cases ctx (path.snoc name) with hsame | ⟨loc, hplace, hremove, hgone⟩
    · rw [hsame]
      exact dirStep_makeDir
    · rw [hgone]
      -- the directory is gone: either it is made again or it stays away
      rcases makeDir_eq_or env ctx (path.snoc name) (tree.remove loc) with hkept | hmade
      · rw [hkept]
        exact .removed loc hclr hplace hremove
      · rw [hmade]
        rcases mkdir_remove hplace hremove with haway | hagain
        · rw [haway]
          exact .removed loc hclr hplace hremove
        · rw [hagain]
          exact .kept

theorem initDir_dirStep (h : initDir envs ctx pfs_root dir tree = some (last_err, tree')) :
    DirStep ctx (dirPath pfs_root dir) dir.clr tree tree' := by
  obtain ⟨parent, name, hpath⟩ := dirPath_eq_snoc pfs_root dir
  rw [initDir_eq] at h
  split at h
  · simp only [Option.some.injEq, Prod.mk.injEq] at h
    rw [← h.2, hpath]
    exact dirStep_clear_make
  · simp only [Option.some.injEq, Prod.mk.injEq] at h
    rw [← h.2]
    exact .kept

/-- A call that returns 0 was given memory and has seen its directory. -/
theorem initDir_eq_zero_iff :
    initDir envs ctx pfs_root dir tree = some (0, tree') ↔
      (envs dir).malloc = true ∧
      makeDir (envs dir) ctx (dirPath pfs_root dir)
        (clearDir (envs dir) ctx (dirPath pfs_root dir) dir.clr tree) = tree' ∧
      (envs dir).stat' = true ∧ tree'.stat ctx (dirPath pfs_root dir) ≠ none := by
  rw [initDir_eq]
  by_cases hmalloc : (envs dir).malloc = true
  · rw [if_pos hmalloc]
    simp only [Option.some.injEq, Prod.mk.injEq, checkDir, hmalloc, true_and]
    rw [and_comm]
    apply and_congr_right
    intro hmade
    rw [hmade]
    have herrno := (envs dir).errno_ne
    simp [Option.isSome_iff_ne_none, herrno]
  · rw [if_neg hmalloc]
    simp [hmalloc]

theorem DirStep.ensureDir (h : DirStep ctx (path.snoc name) clr tree tree')
    (hstat : tree'.stat ctx (path.snoc name) ≠ none) :
    tree' = tree.ensureDir ctx (path.snoc name) := by
  cases h with
  | kept => exact (ensureDir_of_stat hstat).symm
  | made loc hplace hput => exact (ensureDir_of_canPut hplace hput).symm
  | removed loc _ hplace hremove =>
      rw [stat, resolve_remove hplace hremove] at hstat
      exact absurd rfl hstat

theorem initDir_eq_ensureDir (h : initDir envs ctx pfs_root dir tree = some (0, tree')) :
    tree' = tree.ensureDir ctx (dirPath pfs_root dir) := by
  have hstep := initDir_dirStep h
  have hstat := (initDir_eq_zero_iff.mp h).2.2.2
  obtain ⟨parent, name, hpath⟩ := dirPath_eq_snoc pfs_root dir
  rw [hpath] at hstep hstat ⊢
  exact hstep.ensureDir hstat

/-! ## A second call -/

theorem makeDir_of_stat (h : tree.stat ctx (path.snoc name) ≠ none) :
    makeDir env ctx (path.snoc name) tree = tree := by
  have hresolve : tree.resolve ctx (path.snoc name) ≠ none := by
    intro hnone
    rw [stat, hnone] at h
    exact h rfl
  rcases makeDir_eq_or env ctx (path.snoc name) tree with hsame | hmade
  · exact hsame
  · rw [hmade, mkdir_of_resolve hresolve]

/-- Clearing a directory that has just been made leads back to where it was made. -/
theorem DirStep.makeDir_again (h : DirStep ctx (path.snoc name) clr tree tree')
    (hstat : tree'.stat ctx (path.snoc name) ≠ none)
    (hmade : makeDir env ctx (path.snoc name)
      (clearDir env ctx (path.snoc name) clr tree) = tree') :
    makeDir env ctx (path.snoc name) (clearDir env ctx (path.snoc name) clr tree') = tree' := by
  cases h with
  | kept => exact hmade
  | made loc hplace hput =>
      unfold clearDir at hmade ⊢
      split
      · rename_i hcleared
        rw [if_pos hcleared, rmdir_of_canPut hplace hput] at hmade
        rw [rmdir_put hplace hput, hmade]
      · exact makeDir_of_stat hstat
  | removed loc _ hplace hremove =>
      rw [stat, resolve_remove hplace hremove] at hstat
      exact absurd rfl hstat

theorem initDir_again (h : initDir envs ctx pfs_root dir tree = some (0, tree'))
    {last : Tree Bytes γ} (hext : Extends tree' last) (hlast : dir.clr = true → last = tree') :
    initDir envs ctx pfs_root dir last = some (0, last) := by
  have hstep := initDir_dirStep h
  rw [initDir_eq_zero_iff] at h ⊢
  obtain ⟨hmalloc, hmade, hstat', hstat⟩ := h
  obtain ⟨object, hobject⟩ := Option.ne_none_iff_exists'.mp hstat
  have hstatLast : last.stat ctx (dirPath pfs_root dir) ≠ none := by
    rw [hext.stat hobject]
    simp
  refine ⟨hmalloc, ?_, hstat', hstatLast⟩
  obtain ⟨parent, name, hpath⟩ := dirPath_eq_snoc pfs_root dir
  rw [hpath] at hstep hmade hstat hstatLast ⊢
  cases hclr : dir.clr with
  | false =>
      rw [clearDir, Bool.false_and, if_neg (by simp)]
      exact makeDir_of_stat hstatLast
  | true =>
      rw [hclr] at hmade hstep
      rw [hlast hclr]
      exact hstep.makeDir_again hstat hmade

/-! ## The chain of calls -/

theorem orChain_cons_zero (h : initDir envs ctx pfs_root dir tree = some (0, tree')) :
    orChain ((dir :: dirs).map (initDir envs ctx pfs_root)) tree =
      orChain (dirs.map (initDir envs ctx pfs_root)) tree' := by
  rw [List.map_cons, orChain, h]
  exact if_pos rfl

theorem orChain_cons_error (h : initDir envs ctx pfs_root dir tree = some (last_err, tree'))
    (hne : last_err ≠ 0) :
    orChain ((dir :: dirs).map (initDir envs ctx pfs_root)) tree = some (1, tree') := by
  rw [List.map_cons, orChain, h]
  exact if_neg hne

theorem exists_initDir_eq (envs : PfsDir → DirEnv) (ctx : Context Bytes) (pfs_root : Bytes)
    (dir : PfsDir) (tree : Tree Bytes γ) :
    ∃ last_err tree', initDir envs ctx pfs_root dir tree = some (last_err, tree') := by
  rw [initDir_eq]
  split
  · exact ⟨_, _, rfl⟩
  · exact ⟨_, _, rfl⟩

/-- A chain that returns 0 went through its first call. -/
theorem exists_mid_of_orChain
    (h : orChain ((dir :: dirs).map (initDir envs ctx pfs_root)) tree = some (0, tree')) :
    ∃ mid, initDir envs ctx pfs_root dir tree = some (0, mid) ∧
      orChain (dirs.map (initDir envs ctx pfs_root)) mid = some (0, tree') := by
  obtain ⟨last_err, mid, hcall⟩ := exists_initDir_eq envs ctx pfs_root dir tree
  by_cases hzero : last_err = 0
  · rw [hzero] at hcall
    rw [orChain_cons_zero hcall] at h
    exact ⟨mid, hcall, h⟩
  · rw [orChain_cons_error hcall hzero] at h
    simp at h

theorem orChain_eq_ensureDirs
    (h : orChain (dirs.map (initDir envs ctx pfs_root)) tree = some (0, tree')) :
    tree' = ensureDirs ctx pfs_root dirs tree := by
  induction dirs generalizing tree with
  | nil =>
      simp only [List.map_nil, orChain, Option.some.injEq, Prod.mk.injEq, true_and] at h
      exact h.symm
  | cons dir dirs ih =>
      obtain ⟨mid, hcall, hrest⟩ := exists_mid_of_orChain h
      rw [ih hrest, initDir_eq_ensureDir hcall]
      rfl

theorem extends_ensureDirs (ctx : Context Bytes) (pfs_root : Bytes) (dirs : List PfsDir)
    (tree : Tree Bytes γ) : Extends tree (ensureDirs ctx pfs_root dirs tree) := by
  induction dirs generalizing tree with
  | nil => exact Extends.refl tree
  | cons dir dirs ih => exact (tree.extends_ensureDir ctx _).trans (ih _)

/-- Only the last of the directories may be cleared. -/
abbrev ClearedLast (dirs : List PfsDir) : Prop := dirs.Pairwise fun dir _ => dir.clr = false

theorem ClearedLast.rest_eq_nil (h : ClearedLast (dir :: dirs)) (hclr : dir.clr = true) :
    dirs = [] := by
  cases dirs with
  | nil => rfl
  | cons later dirs =>
      have hfalse := List.rel_of_pairwise_cons h (List.mem_cons_self (a := later))
      rw [hclr] at hfalse
      exact absurd hfalse (by simp)

/-- What a chain leaves behind one of its calls is what the call left, or more directories. -/
theorem orChain_rest (hlast : ClearedLast (dir :: dirs))
    (h : orChain (dirs.map (initDir envs ctx pfs_root)) tree = some (0, tree')) :
    Extends tree tree' ∧ (dir.clr = true → tree' = tree) := by
  rw [orChain_eq_ensureDirs h]
  refine ⟨extends_ensureDirs ctx pfs_root dirs tree, ?_⟩
  intro hclr
  rw [hlast.rest_eq_nil hclr]
  rfl

/-- Run again over what it left, a chain that has returned 0 returns 0 and changes nothing. -/
theorem orChain_again (hlast : ClearedLast dirs)
    (h : orChain (dirs.map (initDir envs ctx pfs_root)) tree = some (0, tree')) :
    orChain (dirs.map (initDir envs ctx pfs_root)) tree' = some (0, tree') := by
  induction dirs generalizing tree with
  | nil => rfl
  | cons dir dirs ih =>
      obtain ⟨mid, hcall, hrest⟩ := exists_mid_of_orChain h
      obtain ⟨hext, hsame⟩ := orChain_rest hlast hrest
      rw [orChain_cons_zero (initDir_again hcall hext hsame)]
      exact ih hlast.of_cons hrest

/-! ## When the directories are there -/

/-- A directory is there, and empty if it is one to be cleared. -/
structure Provided (ctx : Context Bytes) (pfs_root : Bytes) (tree : Tree Bytes γ)
    (dir : PfsDir) : Prop where
  kind : tree.stat ctx (dirPath pfs_root dir) = some .dir
  empty : dir.clr = true → ∀ loc,
    tree.resolve ctx (dirPath pfs_root dir) = some loc → tree.Empty loc

theorem prepared_iff : Prepared ctx pfs_root tree ↔ ∀ dir, Provided ctx pfs_root tree dir := by
  constructor
  · intro h dir
    refine ⟨h.dirs dir, ?_⟩
    cases dir with
    | tmp => exact fun _ => h.tmp
    | _ => exact fun hclr => absurd hclr (by decide)
  · intro h
    exact ⟨fun dir => (h dir).kind, (h .tmp).empty rfl⟩

/-- A call that returns 0 provides the directory exactly when that was possible. -/
theorem providable_iff (h : initDir envs ctx pfs_root dir tree = some (0, tree')) :
    Providable ctx pfs_root tree dir ↔ Provided ctx pfs_root tree' dir := by
  have hstat := (initDir_eq_zero_iff.mp h).2.2.2
  have hstep := initDir_dirStep h
  obtain ⟨parent, name, hpath⟩ := dirPath_eq_snoc pfs_root dir
  cases hstep with
  | kept =>
      obtain ⟨object, hobject⟩ := Option.ne_none_iff_exists'.mp hstat
      constructor
      · intro hp
        exact ⟨by rw [hobject, hp.kind object hobject], hp.empty⟩
      · intro hp
        refine ⟨fun object hobject => ?_, hp.empty⟩
        rw [hp.kind, Option.some.injEq] at hobject
        exact hobject.symm
  | made loc hplace hput =>
      rw [hpath] at hplace
      have hnone := resolve_of_canPut hplace hput
      refine iff_of_true ⟨fun object hobject => ?_, fun _ l hl => ?_⟩ ⟨?_, fun _ l hl => ?_⟩
      · rw [hpath, stat, hnone] at hobject
        exact absurd hobject (by simp)
      · rw [hpath, hnone] at hl
        exact absurd hl (by simp)
      · rw [hpath, stat_put hplace hput]
      · have hdir : (tree.put loc .dir).node loc = some .dir := by
          rw [node_put hput, if_pos rfl]
        have hloc := resolve_of_place ((tree.extends_put loc).place hplace) hdir
        rw [hpath, hloc, Option.some.injEq] at hl
        rw [← hl]
        exact hput.canRemove.2.2
  | removed loc _ hplace hremove =>
      rw [hpath] at hplace hstat
      rw [stat, resolve_remove hplace hremove] at hstat
      exact absurd rfl hstat

/-- Directories made later do not change whether this one is provided. -/
theorem Provided.extends_iff (hext : Extends tree tree')
    (hstat : tree.stat ctx (dirPath pfs_root dir) ≠ none)
    (hsame : dir.clr = true → tree' = tree) :
    Provided ctx pfs_root tree dir ↔ Provided ctx pfs_root tree' dir := by
  cases hclr : dir.clr with
  | true => rw [hsame hclr]
  | false =>
      obtain ⟨object, hobject⟩ := Option.ne_none_iff_exists'.mp hstat
      have hlater := hext.stat hobject
      have hno : ∀ t : Tree Bytes γ, dir.clr = true → ∀ loc,
          t.resolve ctx (dirPath pfs_root dir) = some loc → t.Empty loc := by
        intro t htrue
        rw [hclr] at htrue
        exact absurd htrue (by simp)
      constructor
      · intro h
        exact ⟨hext.stat h.kind, hno tree'⟩
      · intro h
        refine ⟨?_, hno tree⟩
        rw [hobject, ← hlater]
        exact h.kind

theorem allProvidable_iff (hlast : ClearedLast dirs)
    (h : orChain (dirs.map (initDir envs ctx pfs_root)) tree = some (0, tree')) :
    AllProvidable ctx pfs_root dirs tree ↔ ∀ dir ∈ dirs, Provided ctx pfs_root tree' dir := by
  induction dirs generalizing tree with
  | nil => simp [AllProvidable]
  | cons dir dirs ih =>
      obtain ⟨mid, hcall, hrest⟩ := exists_mid_of_orChain h
      obtain ⟨hext, hsame⟩ := orChain_rest hlast hrest
      have hstat := (initDir_eq_zero_iff.mp hcall).2.2.2
      rw [AllProvidable, ← initDir_eq_ensureDir hcall, ih hlast.of_cons hrest,
        providable_iff hcall, Provided.extends_iff hext hstat hsame, List.forall_mem_cons]

theorem exists_su_srv_pfs_init_eq (envs : PfsDir → DirEnv) (ctx : Context Bytes)
    (pfs_root : Bytes) (tree : Tree Bytes γ) :
    ∃ result tree', su_srv_pfs_init envs ctx pfs_root tree = some (result, tree') := by
  unfold su_srv_pfs_init
  generalize PfsDir.order = dirs
  induction dirs generalizing tree with
  | nil => exact ⟨0, tree, rfl⟩
  | cons dir dirs ih =>
      obtain ⟨last_err, mid, hcall⟩ := exists_initDir_eq envs ctx pfs_root dir tree
      by_cases hzero : last_err = 0
      · rw [hzero] at hcall
        rw [orChain_cons_zero hcall]
        exact ih mid
      · exact ⟨1, mid, orChain_cons_error hcall hzero⟩

/-- When the result is 0, the directories are all there, and `tmp` is empty, exactly if each
could be provided when its turn came. -/
theorem pfs_init_prepares_iff (envs : PfsDir → DirEnv) (ctx : Context Bytes)
    (pfs_root : Bytes) (tree : Tree Bytes γ) :
    ∃ result tree', su_srv_pfs_init envs ctx pfs_root tree = some (result, tree') ∧
      (result = 0 →
        (Prepared ctx pfs_root tree' ↔ AllProvidable ctx pfs_root PfsDir.order tree)) := by
  obtain ⟨result, tree', hrun⟩ := exists_su_srv_pfs_init_eq envs ctx pfs_root tree
  refine ⟨result, tree', hrun, ?_⟩
  intro hzero
  rw [hzero] at hrun
  have hlast : ClearedLast PfsDir.order := by decide
  have hall : ∀ dir, dir ∈ PfsDir.order := by
    intro dir
    cases dir <;> decide
  rw [prepared_iff, allProvidable_iff hlast hrun]
  constructor
  · intro h dir _
    exact h dir
  · intro h dir
    exact h dir (hall dir)

/-- A system that fails nothing. -/
def faultlessDir : DirEnv where
  malloc := true
  rmdir := true
  stat := true
  mkdir := true
  stat' := true
  errno := 2
  errno_ne := by decide

/-- A file that an earlier run has left in `tmp` is still there. -/
theorem not_pfs_init_prepares_leftover :
    ¬ ∀ (envs : PfsDir → DirEnv) (ctx : Context Bytes) (pfs_root : Bytes)
        (tree tree' : Tree Bytes Bytes),
      su_srv_pfs_init envs ctx pfs_root tree = some (0, tree') → Prepared ctx pfs_root tree' := by
  intro h
  let root := ascii "files"
  let tmp := ascii "tmp"
  let old := ascii "script"
  let tree : Tree Bytes Bytes :=
    (((Tree.base.put [root] .dir).put [tmp, root] .dir).put [old, tmp, root] (.other []))
  let ctx : Context Bytes := ⟨[], 40⟩
  let run := su_srv_pfs_init (fun _ => faultlessDir) ctx (ascii "/files") tree
  have hrun : run.map (fun r => (r.1, r.2.resolve ctx (dirPath (ascii "/files") .tmp),
      r.2.node [old, tmp, root])) = some (0, some [tmp, root], some (.other [])) := by
    decide +kernel
  rw [Option.map_eq_some_iff] at hrun
  obtain ⟨⟨result, tree'⟩, hresult, hseen⟩ := hrun
  simp only [Prod.mk.injEq] at hseen
  obtain ⟨hzero, htmp, hold⟩ := hseen
  rw [hzero] at hresult
  have hempty := (h _ _ _ _ _ hresult).tmp [tmp, root] htmp old
  rw [hold] at hempty
  exact absurd hempty (by simp)

/-! ## What else may change -/

theorem dirPlace_of_order {done : List PfsDir} (horder : PfsDir.order = done ++ dir :: dirs)
    (tree : Tree Bytes γ) :
    dirPlace ctx pfs_root tree dir =
      (ensureDirs ctx pfs_root done tree).place ctx (dirPath pfs_root dir) := by
  have hnodup : (done ++ dir :: dirs).Nodup := by
    rw [← horder]
    decide
  have hbefore : PfsDir.order.takeWhile (· ≠ dir) = done := by
    have hne : ∀ earlier ∈ done, decide (earlier ≠ dir) = true := by
      intro earlier hearlier
      rw [decide_eq_true_iff]
      exact (List.nodup_append.mp hnodup).2.2 earlier hearlier dir (List.mem_cons_self)
    rw [horder, List.takeWhile_append_of_pos hne, List.takeWhile_cons_of_neg (by simp),
      List.append_nil]
  rw [dirPlace, hbefore]

/-- One more call keeps the tree harmless. -/
theorem Harmless.step {current : Tree Bytes γ} (h : Harmless ctx pfs_root tree current)
    (hext : Extends tree current)
    (hplace : dirPlace ctx pfs_root tree dir = current.place ctx (dirPath pfs_root dir))
    (hstep : DirStep ctx (dirPath pfs_root dir) dir.clr current tree') :
    Harmless ctx pfs_root tree tree' := by
  cases hstep with
  | kept => exact h
  | made loc hloc hput =>
      constructor
      · intro l object hobject
        have hold := (current.extends_put loc).node (hext.node hobject)
        exact .inl hold
      · intro l hnone
        rw [node_put hput]
        split
        · rename_i heq
          exact .inr ⟨rfl, dir, by rw [hplace, hloc, heq]⟩
        · exact h.added l hnone
  | removed loc hclr hloc hremove =>
      have htmp : dir = .tmp := by
        cases dir <;> first | rfl | exact absurd hclr (by decide)
      constructor
      · intro l object hobject
        have hnow := hext.node hobject
        rw [node_remove hremove]
        split
        · rename_i heq
          rw [heq, hremove.2.1, Option.some.injEq] at hnow
          refine .inr ⟨?_, hnow.symm, ?_, rfl⟩
          · rw [← htmp, hplace, hloc, heq]
          · intro name
            by_contra hchild
            obtain ⟨below, hbelow⟩ := Option.ne_none_iff_exists'.mp hchild
            have hchildNow := hext.node hbelow
            rw [heq, hremove.2.2 name] at hchildNow
            exact absurd hchildNow (by simp)
        · exact .inl hnow
      · intro l hnone
        rw [node_remove hremove]
        split
        · exact .inl rfl
        · exact h.added l hnone

theorem harmless_orChain {done : List PfsDir} {result : Int}
    (horder : PfsDir.order = done ++ dirs)
    (h : Harmless ctx pfs_root tree (ensureDirs ctx pfs_root done tree))
    (hrun : orChain (dirs.map (initDir envs ctx pfs_root)) (ensureDirs ctx pfs_root done tree) =
      some (result, tree')) : Harmless ctx pfs_root tree tree' := by
  induction dirs generalizing done with
  | nil =>
      simp only [List.map_nil, orChain, Option.some.injEq, Prod.mk.injEq] at hrun
      rw [← hrun.2]
      exact h
  | cons dir dirs ih =>
      obtain ⟨last_err, mid, hcall⟩ :=
        exists_initDir_eq envs ctx pfs_root dir (ensureDirs ctx pfs_root done tree)
      have hmid : Harmless ctx pfs_root tree mid :=
        h.step (extends_ensureDirs ctx pfs_root done tree) (dirPlace_of_order horder tree)
          (initDir_dirStep hcall)
      by_cases hzero : last_err = 0
      · rw [hzero] at hcall
        rw [orChain_cons_zero hcall] at hrun
        have hnext : mid = ensureDirs ctx pfs_root (done ++ [dir]) tree := by
          rw [initDir_eq_ensureDir hcall, ensureDirs, ensureDirs, List.foldl_append]
          rfl
        rw [hnext] at hmid hrun
        have hrest : PfsDir.order = (done ++ [dir]) ++ dirs := by
          rw [horder, List.append_assoc, List.singleton_append]
        exact ih hrest hmid hrun
      · rw [orChain_cons_error hcall hzero, Option.some.injEq, Prod.mk.injEq] at hrun
        rw [← hrun.2]
        exact hmid

/-- Whatever the result, nothing is lost or added but the directories themselves; and a
second run after the result 0 returns 0 and changes nothing. -/
theorem pfs_init_harmless (envs : PfsDir → DirEnv) (ctx : Context Bytes) (pfs_root : Bytes)
    (tree : Tree Bytes γ) :
    ∃ result tree', su_srv_pfs_init envs ctx pfs_root tree = some (result, tree') ∧
      Harmless ctx pfs_root tree tree' ∧
      (result = 0 → su_srv_pfs_init envs ctx pfs_root tree' = some (0, tree')) := by
  obtain ⟨result, tree', hrun⟩ := exists_su_srv_pfs_init_eq envs ctx pfs_root tree
  refine ⟨result, tree', hrun, ?_, ?_⟩
  · have hstart : Harmless ctx pfs_root tree (ensureDirs ctx pfs_root [] tree) :=
      ⟨fun _ _ hobject => .inl hobject, fun _ hnone => .inl hnone⟩
    exact harmless_orChain (List.nil_append _).symm hstart hrun
  · intro hzero
    rw [hzero] at hrun
    have hlast : ClearedLast PfsDir.order := by decide
    exact orChain_again hlast hrun

end Susrv.Native
