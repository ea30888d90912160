import Susrv.Base.CString
import Mathlib.Data.Finmap

/-!
# Directory trees and path resolution

A tree of directories, symbolic links and other objects with `mkdir` and `rmdir`, and
the walk that resolves a path in it.  Names, and the objects that are neither
directories nor links, are parameters; permissions and times are left out.  `Extends`
orders the trees by the directories that were added, and resolution is monotone in it.
-/

namespace Susrv.Base.FileSystem

/-- A component of a path: `.`, `..` or a name. -/
inductive Step (ν : Type*)
  | here
  | up
  | down (name : ν)
  deriving DecidableEq

structure Path (ν : Type*) where
  absolute : Bool
  steps : List (Step ν)
  deriving DecidableEq

/-- What a name stands for; the other objects are files, sockets and devices. -/
inductive Node (ν γ : Type*)
  | dir
  | link (target : Path ν)
  | other (object : γ)
  deriving DecidableEq

/-- The names on the way to an object, the innermost first. -/
abbrev Loc (ν : Type*) := List ν

/-- A tree whose objects all lie in directories. -/
structure Tree (ν γ : Type*) [DecidableEq ν] where
  entries : Finmap fun _ : Loc ν => Node ν γ
  root_dir : entries.lookup [] = some .dir
  parent_dir : ∀ name loc, name :: loc ∈ entries → entries.lookup loc = some .dir

/-- The working directory of a process, and how many links one resolution follows. -/
structure Context (ν : Type*) where
  cwd : Loc ν
  links : Nat

variable {ν γ : Type*} [DecidableEq ν]

namespace Tree

variable {tree tree' : Tree ν γ} {loc : Loc ν}

def node (tree : Tree ν γ) (loc : Loc ν) : Option (Node ν γ) := tree.entries.lookup loc

/-- Nothing lies directly in the object. -/
def Empty (tree : Tree ν γ) (loc : Loc ν) : Prop := ∀ name, tree.node (name :: loc) = none

theorem ext_node {tree tree' : Tree ν γ} (h : ∀ loc, tree.node loc = tree'.node loc) :
    tree = tree' := by
  have hentries : tree.entries = tree'.entries := Finmap.ext_lookup h
  cases tree
  cases tree'
  cases hentries
  rfl

@[simp] theorem node_root (tree : Tree ν γ) : tree.node [] = some .dir := tree.root_dir

theorem node_parent {name : ν}
    (h : tree.node (name :: loc) ≠ none) : tree.node loc = some .dir := by
  apply tree.parent_dir name
  rw [← Finmap.lookup_isSome]
  exact Option.isSome_iff_ne_none.mpr h

/-- Nothing lies below a place without an object. -/
theorem empty_of_node_eq_none (h : tree.node loc = none) :
    tree.Empty loc := by
  intro name
  by_contra hchild
  rw [node_parent hchild] at h
  exact absurd h (by simp)

theorem empty_iff :
    tree.Empty loc ↔ ∀ child ∈ tree.entries.keys, child ≠ [] → child.tail ≠ loc := by
  constructor
  · intro h child hchild hne htail
    obtain ⟨name, rest, rfl⟩ := List.exists_cons_of_ne_nil hne
    rw [List.tail_cons] at htail
    rw [Finmap.mem_keys, ← Finmap.lookup_isSome, htail] at hchild
    have hnone : tree.entries.lookup (name :: loc) = none := h name
    rw [hnone] at hchild
    exact absurd hchild (by simp)
  · intro h name
    by_contra hchild
    refine h (name :: loc) ?_ (by simp) (by simp)
    rw [Finmap.mem_keys, ← Finmap.lookup_isSome]
    exact Option.isSome_iff_ne_none.mpr hchild

instance (tree : Tree ν γ) (loc : Loc ν) : Decidable (tree.Empty loc) :=
  decidable_of_iff _ empty_iff.symm

/-! ## Added directories -/

/-- `tree'` has every object of `tree`, and what it adds are directories. -/
def Extends (tree tree' : Tree ν γ) : Prop :=
  ∀ loc, tree'.node loc = tree.node loc ∨ tree.node loc = none ∧ tree'.node loc = some .dir

theorem Extends.refl (tree : Tree ν γ) : Extends tree tree := fun _ => .inl rfl

theorem Extends.trans {tree₁ tree₂ tree₃ : Tree ν γ} (h : Extends tree₁ tree₂)
    (h' : Extends tree₂ tree₃) : Extends tree₁ tree₃ := by
  intro loc
  rcases h loc with hsame | ⟨hnone, hdir⟩
  · rw [← hsame]
    exact h' loc
  · right
    refine ⟨hnone, ?_⟩
    rcases h' loc with hsame | ⟨hnone', _⟩
    · rw [hsame, hdir]
    · rw [hdir] at hnone'
      exact absurd hnone' (by simp)

theorem Extends.node (h : Extends tree tree') {object : Node ν γ}
    (hnode : tree.node loc = some object) : tree'.node loc = some object := by
  rcases h loc with hsame | ⟨hnone, _⟩
  · rw [hsame, hnode]
  · rw [hnone] at hnode
    exact absurd hnode (by simp)

/-- `.` and `..` need a directory.  A working directory that was removed still has its
parent. -/
def Passable (tree : Tree ν γ) (loc : Loc ν) : Prop :=
  tree.node loc = none ∨ tree.node loc = some .dir

theorem Extends.passable (h : Extends tree tree') (hpass : tree.Passable loc) :
    tree'.Passable loc := by
  rcases h loc with hsame | ⟨_, hdir⟩
  · rw [Passable, hsame]
    exact hpass
  · exact .inr hdir

/-! ## Adding and removing objects -/

/-- The tree with its root only. -/
def base : Tree ν γ where
  entries := Finmap.singleton [] .dir
  root_dir := Finmap.lookup_singleton_eq
  parent_dir name loc h := absurd ((Finmap.mem_singleton _ _ _).mp h) (by simp)

variable [DecidableEq γ]

/-- There is no object at the place yet, and there is a directory around it. -/
def CanPut (tree : Tree ν γ) (loc : Loc ν) : Prop :=
  tree.node loc = none ∧ tree.node loc.tail = some .dir

/-- An empty directory other than the root. -/
def CanRemove (tree : Tree ν γ) (loc : Loc ν) : Prop :=
  loc ≠ [] ∧ tree.node loc = some .dir ∧ tree.Empty loc

instance (tree : Tree ν γ) (loc : Loc ν) : Decidable (tree.CanPut loc) :=
  inferInstanceAs (Decidable (_ ∧ _))

instance (tree : Tree ν γ) (loc : Loc ν) : Decidable (tree.CanRemove loc) :=
  inferInstanceAs (Decidable (_ ∧ _ ∧ _))

/-- Puts a new object into an existing directory; otherwise nothing happens. -/
def put (tree : Tree ν γ) (loc : Loc ν) (object : Node ν γ) : Tree ν γ :=
  if h : tree.CanPut loc then
    { entries := tree.entries.insert loc object
      root_dir := by
        have hne : [] ≠ loc := by
          intro hroot
          have hfree := h.1
          rw [← hroot, node_root] at hfree
          exact absurd hfree (by simp)
        rw [Finmap.lookup_insert_of_ne _ hne]
        exact tree.root_dir
      parent_dir := by
        intro name parent hmem
        have hparent : tree.node parent = some .dir := by
          rcases Finmap.mem_insert.mp hmem with heq | hold
          · have htail := h.2
            rw [← heq, List.tail_cons] at htail
            exact htail
          · exact tree.parent_dir name parent hold
        have hne : parent ≠ loc := by
          intro heq
          rw [heq, h.1] at hparent
          exact absurd hparent (by simp)
        rw [Finmap.lookup_insert_of_ne _ hne]
        exact hparent }
  else tree

/-- Removes an empty directory; otherwise nothing happens. -/
def remove (tree : Tree ν γ) (loc : Loc ν) : Tree ν γ :=
  if h : tree.CanRemove loc then
    { entries := tree.entries.erase loc
      root_dir := by
        rw [Finmap.lookup_erase_ne h.1.symm]
        exact tree.root_dir
      parent_dir := by
        intro name parent hmem
        have hold := (Finmap.mem_erase.mp hmem).2
        have hne : parent ≠ loc := by
          intro heq
          have hempty : tree.node (name :: parent) = none := by
            rw [heq]
            exact h.2.2 name
          exact Finmap.lookup_eq_none.mp hempty hold
        rw [Finmap.lookup_erase_ne hne]
        exact tree.parent_dir name parent hold }
  else tree

theorem put_of_not_canPut (h : ¬ tree.CanPut loc)
    (object : Node ν γ) : tree.put loc object = tree := dif_neg h

theorem remove_of_not_canRemove (h : ¬ tree.CanRemove loc) :
    tree.remove loc = tree := dif_neg h

theorem node_put (h : tree.CanPut loc) (object : Node ν γ)
    (l : Loc ν) : (tree.put loc object).node l = if l = loc then some object else tree.node l := by
  rw [put, dif_pos h]
  split
  · rename_i heq
    rw [heq]
    exact Finmap.lookup_insert _
  · rename_i hne
    exact Finmap.lookup_insert_of_ne _ hne

theorem node_remove (h : tree.CanRemove loc) (l : Loc ν) :
    (tree.remove loc).node l = if l = loc then none else tree.node l := by
  rw [remove, dif_pos h]
  split
  · rename_i heq
    rw [heq]
    exact Finmap.lookup_erase _ _
  · rename_i hne
    exact Finmap.lookup_erase_ne hne

theorem CanRemove.canPut (h : tree.CanRemove loc) :
    (tree.remove loc).CanPut loc := by
  obtain ⟨name, parent, rfl⟩ := List.exists_cons_of_ne_nil h.1
  constructor
  · rw [node_remove h, if_pos rfl]
  · have hne : parent ≠ name :: parent := fun heq => by simpa using congrArg List.length heq
    have hchild : tree.node (name :: parent) ≠ none := by
      rw [h.2.1]
      simp
    rw [List.tail_cons, node_remove h, if_neg hne]
    exact node_parent hchild

theorem CanPut.canRemove (h : tree.CanPut loc) :
    (tree.put loc .dir).CanRemove loc := by
  refine ⟨?_, ?_, ?_⟩
  · intro hroot
    have hfree := h.1
    rw [hroot, node_root] at hfree
    exact absurd hfree (by simp)
  · rw [node_put h, if_pos rfl]
  · intro name
    have hne : name :: loc ≠ loc := fun heq => by simpa using congrArg List.length heq
    rw [node_put h, if_neg hne]
    exact empty_of_node_eq_none h.1 name

/-- A directory that is removed and made again leaves no trace. -/
theorem put_remove (h : tree.CanRemove loc) :
    (tree.remove loc).put loc .dir = tree := by
  apply ext_node
  intro l
  rw [node_put h.canPut]
  split
  · rename_i heq
    rw [heq, h.2.1]
  · rename_i hne
    rw [node_remove h, if_neg hne]

theorem remove_put (h : tree.CanPut loc) :
    (tree.put loc .dir).remove loc = tree := by
  apply ext_node
  intro l
  rw [node_remove h.canRemove]
  split
  · rename_i heq
    rw [heq, h.1]
  · rename_i hne
    rw [node_put h, if_neg hne]

end Tree

/-! ## Path resolution -/

/-- Where the resolution of a path starts. -/
def Path.start (cwd : Loc ν) (path : Path ν) : Loc ν := if path.absolute then [] else cwd

/-- The path of a name in the object that `path` stands for. -/
def Path.snoc (path : Path ν) (name : ν) : Path ν :=
  { path with steps := path.steps ++ [.down name] }

namespace Tree

variable [DecidableEq γ]

instance (tree : Tree ν γ) (loc : Loc ν) : Decidable (tree.Passable loc) :=
  inferInstanceAs (Decidable (_ ∨ _))

/-- Takes the steps from `loc`; `follow` takes over behind a link. -/
def walkWith (tree : Tree ν γ) (follow : Loc ν → List (Step ν) → Option (Loc ν)) :
    Loc ν → List (Step ν) → Option (Loc ν)
  | loc, [] => some loc
  | loc, .here :: steps =>
      if tree.Passable loc then walkWith tree follow loc steps else none
  | loc, .up :: steps =>
      if tree.Passable loc then walkWith tree follow loc.tail steps else none
  | loc, .down name :: steps =>
      match tree.node (name :: loc) with
      | none => none
      | some (.link target) => follow (target.start loc) (target.steps ++ steps)
      | some _ => walkWith tree follow (name :: loc) steps

/-- The walk that follows up to `links` links, also the one that the last step leads to. -/
def walk (tree : Tree ν γ) : (links : Nat) → Loc ν → List (Step ν) → Option (Loc ν)
  | 0 => tree.walkWith fun _ _ => none
  | links + 1 => tree.walkWith (tree.walk links)

def resolve (tree : Tree ν γ) (ctx : Context ν) (path : Path ν) : Option (Loc ν) :=
  tree.walk ctx.links (path.start ctx.cwd) path.steps

/-- `stat`; `none` is any of its errors. -/
def stat (tree : Tree ν γ) (ctx : Context ν) (path : Path ν) : Option (Node ν γ) :=
  (tree.resolve ctx path).bind tree.node

/-- Where the last name of a path belongs; a link of that name is not followed. -/
def place (tree : Tree ν γ) (ctx : Context ν) (path : Path ν) : Option (Loc ν) :=
  match path.steps.getLast? with
  | some (.down name) =>
      (tree.resolve ctx { path with steps := path.steps.dropLast }).map (name :: ·)
  | _ => none

/-- `mkdir`; an error leaves the tree alone. -/
def mkdir (tree : Tree ν γ) (ctx : Context ν) (path : Path ν) : Tree ν γ :=
  match tree.place ctx path with
  | none => tree
  | some loc => tree.put loc .dir

/-- `rmdir`; an error leaves the tree alone. -/
def rmdir (tree : Tree ν γ) (ctx : Context ν) (path : Path ν) : Tree ν γ :=
  match tree.place ctx path with
  | none => tree
  | some loc => tree.remove loc

variable {tree tree' : Tree ν γ} {ctx : Context ν} {path : Path ν} {name : ν} {loc : Loc ν}

@[simp] theorem place_snoc :
    tree.place ctx (path.snoc name) = (tree.resolve ctx path).map (name :: ·) := by
  simp [place, Path.snoc]

/-! ### The last step -/

theorem walkWith_append {follow : Loc ν → List (Step ν) → Option (Loc ν)} {links : Nat}
    (hwalk : tree.walk links = tree.walkWith follow)
    (hfollow : ∀ loc steps, ∃ left, ∀ rest, follow loc (steps ++ rest) =
      (follow loc steps).bind fun mid => tree.walk left mid rest)
    (loc : Loc ν) (steps : List (Step ν)) :
    ∃ left, ∀ rest, tree.walkWith follow loc (steps ++ rest) =
      (tree.walkWith follow loc steps).bind fun mid => tree.walk left mid rest := by
  induction steps generalizing loc with
  | nil =>
      refine ⟨links, fun rest => ?_⟩
      rw [List.nil_append, walkWith, Option.bind_some, hwalk]
  | cons step steps ih =>
      cases step with
      | here =>
          obtain ⟨left, hleft⟩ := ih loc
          refine ⟨left, fun rest => ?_⟩
          rw [List.cons_append, walkWith, walkWith]
          split
          · exact hleft rest
          · rfl
      | up =>
          obtain ⟨left, hleft⟩ := ih loc.tail
          refine ⟨left, fun rest => ?_⟩
          rw [List.cons_append, walkWith, walkWith]
          split
          · exact hleft rest
          · rfl
      | down name =>
          simp only [List.cons_append, walkWith]
          cases tree.node (name :: loc) with
          | none => exact ⟨0, fun _ => rfl⟩
          | some object =>
              cases object with
              | link target =>
                  simp only [← List.append_assoc]
                  exact hfollow _ _
              | dir => exact ih (name :: loc)
              | other object => exact ih (name :: loc)

/-- A walk is the walk along a first part of its steps and, with the links that are left,
the walk along the rest. -/
theorem walk_append (links : Nat) (loc : Loc ν) (steps : List (Step ν)) :
    ∃ left, ∀ rest, tree.walk links loc (steps ++ rest) =
      (tree.walk links loc steps).bind fun mid => tree.walk left mid rest := by
  induction links generalizing loc steps with
  | zero =>
      have hwalk : tree.walk 0 = tree.walkWith fun _ _ => none := rfl
      exact walkWith_append hwalk (fun _ _ => ⟨0, fun _ => rfl⟩) loc steps
  | succ links ih =>
      have hwalk : tree.walk (links + 1) = tree.walkWith (tree.walk links) := rfl
      exact walkWith_append hwalk ih loc steps

theorem walk_down_of_dir {links : Nat} (h : tree.node (name :: loc) = some .dir) :
    tree.walk links loc [.down name] = some (name :: loc) := by
  cases links <;> simp [walk, walkWith, h]

theorem walk_down_of_none {links : Nat} (h : tree.node (name :: loc) = none) :
    tree.walk links loc [.down name] = none := by
  cases links <;> simp [walk, walkWith, h]

theorem resolve_snoc (tree : Tree ν γ) (ctx : Context ν) (path : Path ν) :
    ∃ left, ∀ name, tree.resolve ctx (path.snoc name) =
      (tree.resolve ctx path).bind fun mid => tree.walk left mid [.down name] := by
  obtain ⟨left, hleft⟩ := tree.walk_append ctx.links (path.start ctx.cwd) path.steps
  exact ⟨left, fun name => hleft [.down name]⟩

/-- A directory at the place of a path is what the path stands for. -/
theorem resolve_of_place (hplace : tree.place ctx (path.snoc name) = some loc)
    (hdir : tree.node loc = some .dir) : tree.resolve ctx (path.snoc name) = some loc := by
  obtain ⟨left, hsnoc⟩ := tree.resolve_snoc ctx path
  rw [place_snoc, Option.map_eq_some_iff] at hplace
  obtain ⟨parent, hparent, rfl⟩ := hplace
  rw [hsnoc, hparent, Option.bind_some, walk_down_of_dir hdir]

/-- Only a path whose place is taken leads anywhere. -/
theorem exists_place_of_resolve (h : tree.resolve ctx (path.snoc name) ≠ none) :
    ∃ taken, tree.place ctx (path.snoc name) = some taken ∧ tree.node taken ≠ none := by
  obtain ⟨left, hsnoc⟩ := tree.resolve_snoc ctx path
  rw [hsnoc] at h
  cases hparent : tree.resolve ctx path with
  | none => simp [hparent] at h
  | some parent =>
      refine ⟨name :: parent, by rw [place_snoc, hparent, Option.map_some], ?_⟩
      intro hfree
      rw [hparent, Option.bind_some, walk_down_of_none hfree] at h
      exact h rfl

/-! ### Adding directories -/

theorem extends_put (tree : Tree ν γ) (loc : Loc ν) : Extends tree (tree.put loc .dir) := by
  intro l
  by_cases hput : tree.CanPut loc
  · rw [node_put hput]
    split
    · rename_i heq
      right
      exact ⟨by rw [heq]; exact hput.1, rfl⟩
    · exact .inl rfl
  · rw [put_of_not_canPut hput]
    exact .inl rfl

theorem extends_mkdir (tree : Tree ν γ) (ctx : Context ν) (path : Path ν) :
    Extends tree (tree.mkdir ctx path) := by
  rw [mkdir]
  split
  · exact Extends.refl tree
  · exact tree.extends_put _

theorem extends_of_remove (tree : Tree ν γ) (loc : Loc ν) :
    Extends (tree.remove loc) tree := by
  by_cases hremove : tree.CanRemove loc
  · rw [← put_remove hremove, remove_put hremove.canPut]
    exact extends_put _ loc
  · rw [remove_of_not_canRemove hremove]
    exact Extends.refl tree

theorem walkWith_mono (hext : Extends tree tree')
    {follow follow' : Loc ν → List (Step ν) → Option (Loc ν)}
    (hfollow : ∀ loc steps target, follow loc steps = some target →
      follow' loc steps = some target)
    {steps : List (Step ν)} {target : Loc ν} (h : tree.walkWith follow loc steps = some target) :
    tree'.walkWith follow' loc steps = some target := by
  induction steps generalizing loc with
  | nil => exact h
  | cons step steps ih =>
      cases step with
      | here =>
          rw [walkWith, Option.ite_none_right_eq_some] at h ⊢
          exact ⟨hext.passable h.1, ih h.2⟩
      | up =>
          rw [walkWith, Option.ite_none_right_eq_some] at h ⊢
          exact ⟨hext.passable h.1, ih h.2⟩
      | down name =>
          rw [walkWith] at h ⊢
          cases hnode : tree.node (name :: loc) with
          | none => simp [hnode] at h
          | some object =>
              rw [hnode] at h
              rw [hext.node hnode]
              cases object with
              | link path => exact hfollow _ _ _ h
              | dir => exact ih h
              | other object => exact ih h

/-- Added directories do not change where a walk ends. -/
theorem walk_mono (hext : Extends tree tree') (links : Nat) {steps : List (Step ν)}
    {target : Loc ν} (h : tree.walk links loc steps = some target) :
    tree'.walk links loc steps = some target := by
  induction links generalizing loc steps target with
  | zero => exact walkWith_mono hext (fun _ _ _ hnone => hnone) h
  | succ links ih => exact walkWith_mono hext (fun _ _ _ hfollow => ih hfollow) h

theorem Extends.resolve (hext : Extends tree tree') (h : tree.resolve ctx path = some loc) :
    tree'.resolve ctx path = some loc := walk_mono hext ctx.links h

theorem Extends.stat (hext : Extends tree tree') {object : Node ν γ}
    (h : tree.stat ctx path = some object) : tree'.stat ctx path = some object := by
  rw [Tree.stat, Option.bind_eq_some_iff] at h ⊢
  obtain ⟨loc, hresolve, hnode⟩ := h
  exact ⟨loc, hext.resolve hresolve, hext.node hnode⟩

theorem Extends.place (hext : Extends tree tree')
    (h : tree.place ctx (path.snoc name) = some loc) :
    tree'.place ctx (path.snoc name) = some loc := by
  rw [place_snoc, Option.map_eq_some_iff] at h ⊢
  obtain ⟨parent, hparent, hloc⟩ := h
  exact ⟨parent, hext.resolve hparent, hloc⟩

/-! ### Removing and making a directory -/

theorem rmdir_cases (tree : Tree ν γ) (ctx : Context ν) (path : Path ν) :
    tree.rmdir ctx path = tree ∨ ∃ loc, tree.place ctx path = some loc ∧
      tree.CanRemove loc ∧ tree.rmdir ctx path = tree.remove loc := by
  rw [rmdir]
  cases tree.place ctx path with
  | none => exact .inl rfl
  | some loc =>
      by_cases hremove : tree.CanRemove loc
      · exact .inr ⟨loc, rfl, hremove, rfl⟩
      · exact .inl (remove_of_not_canRemove hremove)

theorem mkdir_cases (tree : Tree ν γ) (ctx : Context ν) (path : Path ν) :
    tree.mkdir ctx path = tree ∨ ∃ loc, tree.place ctx path = some loc ∧
      tree.CanPut loc ∧ tree.mkdir ctx path = tree.put loc .dir := by
  rw [mkdir]
  cases tree.place ctx path with
  | none => exact .inl rfl
  | some loc =>
      by_cases hput : tree.CanPut loc
      · exact .inr ⟨loc, rfl, hput, rfl⟩
      · exact .inl (put_of_not_canPut hput _)

/-- A path that leads somewhere is taken, whatever it leads to. -/
theorem mkdir_of_resolve (h : tree.resolve ctx (path.snoc name) ≠ none) :
    tree.mkdir ctx (path.snoc name) = tree := by
  obtain ⟨taken, hplace, hnode⟩ := exists_place_of_resolve h
  rw [mkdir, hplace]
  exact put_of_not_canPut (fun hput => hnode hput.1) _

theorem resolve_of_canPut (hplace : tree.place ctx (path.snoc name) = some loc)
    (hput : tree.CanPut loc) : tree.resolve ctx (path.snoc name) = none := by
  by_contra hne
  obtain ⟨taken, hplace', hnode⟩ := exists_place_of_resolve hne
  rw [hplace, Option.some.injEq] at hplace'
  rw [← hplace'] at hnode
  exact hnode hput.1

/-- Behind a removed directory nothing is left at its path, also when the path itself
leads through the directory. -/
theorem resolve_remove (hplace : tree.place ctx (path.snoc name) = some loc)
    (hremove : tree.CanRemove loc) :
    (tree.remove loc).resolve ctx (path.snoc name) = none := by
  by_contra hne
  obtain ⟨taken, hplace', hnode⟩ := exists_place_of_resolve hne
  have htaken := (tree.extends_of_remove loc).place hplace'
  rw [hplace, Option.some.injEq] at htaken
  rw [node_remove hremove, if_pos htaken.symm] at hnode
  exact hnode rfl

/-- Making a removed directory again restores the tree, if it succeeds. -/
theorem mkdir_remove (hplace : tree.place ctx (path.snoc name) = some loc)
    (hremove : tree.CanRemove loc) :
    (tree.remove loc).mkdir ctx (path.snoc name) = tree.remove loc ∨
      (tree.remove loc).mkdir ctx (path.snoc name) = tree := by
  rcases (tree.remove loc).mkdir_cases ctx (path.snoc name) with hsame | ⟨l, hl, _, hmade⟩
  · exact .inl hsame
  · right
    have hsame := (tree.extends_of_remove loc).place hl
    rw [hplace, Option.some.injEq] at hsame
    rw [hmade, ← hsame, put_remove hremove]

theorem rmdir_of_canPut (hplace : tree.place ctx path = some loc) (hput : tree.CanPut loc) :
    tree.rmdir ctx path = tree := by
  rw [rmdir, hplace]
  apply remove_of_not_canRemove
  intro hremove
  have hfree := hput.1
  rw [hremove.2.1] at hfree
  exact absurd hfree (by simp)

theorem rmdir_put (hplace : tree.place ctx (path.snoc name) = some loc)
    (hput : tree.CanPut loc) : (tree.put loc .dir).rmdir ctx (path.snoc name) = tree := by
  rw [rmdir, (tree.extends_put loc).place hplace]
  exact remove_put hput

theorem stat_put (hplace : tree.place ctx (path.snoc name) = some loc)
    (hput : tree.CanPut loc) :
    (tree.put loc .dir).stat ctx (path.snoc name) = some .dir := by
  have hdir : (tree.put loc .dir).node loc = some .dir := by rw [node_put hput, if_pos rfl]
  rw [stat, resolve_of_place ((tree.extends_put loc).place hplace) hdir, Option.bind_some, hdir]

/-- The tree with a directory made where the path leads nowhere. -/
def ensureDir (tree : Tree ν γ) (ctx : Context ν) (path : Path ν) : Tree ν γ :=
  if tree.stat ctx path = none then tree.mkdir ctx path else tree

theorem extends_ensureDir (tree : Tree ν γ) (ctx : Context ν) (path : Path ν) :
    Extends tree (tree.ensureDir ctx path) := by
  rw [ensureDir]
  split
  · exact tree.extends_mkdir ctx path
  · exact Extends.refl tree

theorem ensureDir_of_stat (h : tree.stat ctx path ≠ none) : tree.ensureDir ctx path = tree :=
  if_neg h

theorem ensureDir_of_canPut (hplace : tree.place ctx (path.snoc name) = some loc)
    (hput : tree.CanPut loc) : tree.ensureDir ctx (path.snoc name) = tree.put loc .dir := by
  have hnone : tree.stat ctx (path.snoc name) = none := by
    rw [stat, resolve_of_canPut hplace hput, Option.bind_none]
  rw [ensureDir, if_pos hnone, mkdir, hplace]

end Tree

/-! ## Paths as texts -/

open Base.CString

/-- The pieces between the slashes of a text. -/
def components (text : Bytes) : List Bytes :=
  (splitLines 47 [] text).1.map List.dropLast ++ [(splitLines 47 [] text).2]

def Step.ofName (name : Bytes) : Option (Step Bytes) :=
  if name = [] then none
  else if name = ascii "." then some .here
  else if name = ascii ".." then some .up
  else some (.down name)

def Path.ofBytes (text : Bytes) : Path Bytes where
  absolute := text.head? = some 47
  steps := (components text).filterMap Step.ofName

theorem components_append {name : Bytes} (h : 47 ∉ name) (text : Bytes) :
    components (text ++ 47 :: name) = components text ++ [name] := by
  have hlast : splitLines 47 (splitLines 47 [] text).2 (47 :: name) =
      ([(splitLines 47 [] text).2 ++ [47]], name) := by
    rw [splitLines, if_pos rfl, splitLines_of_not_mem h, List.nil_append]
  rw [components, splitLines_append, hlast, components]
  simp

/-- A name behind a slash is the last step of the path. -/
theorem Path.ofBytes_append {name : Bytes} (h : 47 ∉ name)
    (hname : Step.ofName name = some (.down name)) (text : Bytes) :
    ∃ path, Path.ofBytes (text ++ 47 :: name) = Path.snoc path name := by
  refine ⟨⟨(Path.ofBytes (text ++ 47 :: name)).absolute, (Path.ofBytes text).steps⟩, ?_⟩
  rw [Path.snoc, Path.ofBytes, Path.ofBytes, components_append h, List.filterMap_append]
  simp [hname]

end Susrv.Base.FileSystem
