import Susrv.Java.Observers

/-!
# Observers are told once

`Orderly` says which callbacks leave the loop of `invalidatedSessionError` alone;
`toldOnce_orderly` is what that gives and how far it is needed.  That it is needed
depends on the iterator of OpenJDK, whose loop ends where the cursor meets the size.
-/

namespace Susrv.Java

open Base

variable {ω : Type} [DecidableEq ω] {behaviour : Behaviour ω} {detect detect' : Detection ω}
  {s s' : Watched ω} {fuel fuel' : Nat}

/-! ## More fuel -/

theorem Callback.run_mono (h : ∀ s r, detect s = some r → detect' s = some r)
    {callback : Callback ω} {r : Except Unchecked Unit × Watched ω}
    (hrun : callback.run detect s = some r) : callback.run detect' s = some r := by
  induction callback generalizing s with
  | returns => exact hrun
  | throws e => exact hrun
  | ping next ih =>
      obtain ⟨result, hping, hnext⟩ := Option.bind_eq_some_iff.mp hrun
      obtain ⟨raised, hdetect, hresult⟩ := Option.map_eq_some_iff.mp hping
      have hping' : s.ping detect' = some result := by
        rw [Watched.ping, h s raised hdetect, Option.map_some, hresult]
      exact Option.bind_eq_some_iff.mpr ⟨result, hping', ih _ hnext⟩
  | exec next ih =>
      obtain ⟨raised, hexec, hnext⟩ := Option.bind_eq_some_iff.mp hrun
      exact Option.bind_eq_some_iff.mpr ⟨raised, h s raised hexec, ih _ hnext⟩
  | addObserver observer next ih => exact ih _ hrun
  | removeObserver observer next ih => exact ih _ hrun

theorem invalidatedSessionError_succ : s.invalidatedSessionError behaviour (fuel + 1) =
    ((observerLoop behaviour (Watched.invalidatedSessionError behaviour fuel)).forEach
      s.mObservers.modCount fuel 0 s).map afterLoop :=
  rfl

theorem invalidatedSessionError_mono {r : Raised × Watched ω} (hle : fuel ≤ fuel')
    (h : s.invalidatedSessionError behaviour fuel = some r) :
    s.invalidatedSessionError behaviour fuel' = some r := by
  induction fuel generalizing fuel' s r with
  | zero => cases h
  | succ fuel ih =>
      obtain ⟨fuel', rfl⟩ : ∃ n, fuel' = n + 1 := ⟨fuel' - 1, by omega⟩
      obtain ⟨result, hloop, hr⟩ := Option.map_eq_some_iff.mp h
      refine Option.map_eq_some_iff.mpr ⟨result, ?_, hr⟩
      refine ArrayList.Loop.forEach_mono
        (p := observerLoop behaviour (Watched.invalidatedSessionError behaviour fuel))
        rfl rfl rfl (fun o s r hbody => ?_) (by omega) hloop
      exact Callback.run_mono (fun s r hdetect => ih (by omega) hdetect) hbody

/-- A detection has one outcome at most. -/
theorem invalidatedSessionError_unique {r r' : Raised × Watched ω}
    (h : s.invalidatedSessionError behaviour fuel = some r)
    (h' : s.invalidatedSessionError behaviour fuel' = some r') : r = r' := by
  have hmax := invalidatedSessionError_mono (Nat.le_max_left fuel fuel') h
  rw [invalidatedSessionError_mono (Nat.le_max_right fuel fuel') h'] at hmax
  exact (Option.some.inj hmax).symm

/-! ## The property -/

/-- The detection ends in `SuShellInvalidatedException`, has told each registration once,
and leaves neither the instance nor an observer that was told. -/
def ToldOnce (behaviour : Behaviour ω) (s : Watched ω) : Prop :=
  ∃ fuel s' told,
    s.invalidatedSessionError behaviour fuel = some (.SuShellInvalidatedException, s') ∧
    s'.told = s.told ++ told ∧ told.Perm s.mObservers.elems ∧ s'._instance = none ∧
    ∀ observer ∈ told, observer ∉ s'.mObservers.elems

/-! ## Callbacks by themselves -/

/-- How a callback ends and leaves the list, if it detects only while no observer is
registered. -/
def Callback.alone : Callback ω → ArrayList ω → Option (Except Unchecked Unit × ArrayList ω)
  | .returns, l => some (.ok (), l)
  | .throws e, l => some (.error e, l)
  | .ping next, l => if l.elems = [] then (next (.ok false)).alone l.clear else none
  | .exec next, l =>
      if l.elems = [] then (next .SuShellInvalidatedException).alone l.clear else none
  | .addObserver observer next, l => (next (l.add observer).size).alone (l.add observer)
  | .removeObserver observer next, l => (next (l.remove observer).size).alone (l.remove observer)

theorem Callback.alone_follows {callback : Callback ω} {l l' : ArrayList ω}
    {r : Except Unchecked Unit} (h : callback.alone l = some (r, l')) : l.Follows l' := by
  induction callback generalizing l with
  | returns =>
      cases h
      exact .inl rfl
  | throws e =>
      cases h
      exact .inl rfl
  | ping next ih =>
      rw [alone] at h
      split at h
      · exact (ArrayList.follows_clear l).trans (ih _ h)
      · cases h
  | exec next ih =>
      rw [alone] at h
      split at h
      · exact (ArrayList.follows_clear l).trans (ih _ h)
      · cases h
  | addObserver observer next ih => exact (ArrayList.follows_add l observer).trans (ih _ h)
  | removeObserver observer next ih => exact (ArrayList.follows_remove l observer).trans (ih _ h)

/-- Without observers a detection clears the instance and raises the exception. -/
theorem invalidatedSessionError_empty (h : s.mObservers.elems = []) :
    s.invalidatedSessionError behaviour (fuel + 2) =
      some (.SuShellInvalidatedException,
        { s with _instance := none, mObservers := s.mObservers.clear }) := by
  have hsize : 0 = s.mObservers.size := by rw [ArrayList.size, h, List.length_nil]
  rw [invalidatedSessionError_succ, ArrayList.Loop.forEach_done hsize]
  rfl

/-- A callback by itself is the callback in the loop. -/
theorem Callback.run_of_alone {callback : Callback ω} {r : Except Unchecked Unit}
    {l' : ArrayList ω} (h : callback.alone s.mObservers = some (r, l')) :
    ∃ s', callback.run (Watched.invalidatedSessionError behaviour (fuel + 2)) s = some (r, s') ∧
      s'.mObservers = l' ∧ s'.told = s.told := by
  induction callback generalizing s with
  | returns =>
      cases h
      exact ⟨s, rfl, rfl, rfl⟩
  | throws e =>
      cases h
      exact ⟨s, rfl, rfl, rfl⟩
  | ping next ih =>
      rw [alone] at h
      split at h
      · rename_i hempty
        obtain ⟨s', hrun, hlist, htold⟩ :=
          ih (.ok false) (s := { s with _instance := none, mObservers := s.mObservers.clear }) h
        refine ⟨s', ?_, hlist, htold⟩
        rw [run, Watched.ping, invalidatedSessionError_empty hempty]
        exact hrun
      · cases h
  | exec next ih =>
      rw [alone] at h
      split at h
      · rename_i hempty
        obtain ⟨s', hrun, hlist, htold⟩ := ih .SuShellInvalidatedException
          (s := { s with _instance := none, mObservers := s.mObservers.clear }) h
        refine ⟨s', ?_, hlist, htold⟩
        rw [run, Watched.exec, invalidatedSessionError_empty hempty]
        exact hrun
      · cases h
  | addObserver observer next ih => exact ih _ (s := s.addObserver observer) h
  | removeObserver observer next ih => exact ih _ (s := s.removeObserver observer) h

/-! ## The loop -/

/-- From notification `n` on: no callback throws, none but the last touches the list or
detects, and the last leaves as many registrations as there were. -/
def Orderly (behaviour : Behaviour ω) : Nat → ArrayList ω → List ω → Prop
  | _, _, [] => True
  | n, l, [o] => ∃ l', (behaviour n o).alone l = some (.ok (), l') ∧ l'.size = l.size
  | n, l, o :: o' :: rest =>
      (behaviour n o).alone l = some (.ok (), l) ∧ Orderly behaviour (n + 1) l (o' :: rest)

/-- As long as the list is untouched: no callback detects while an observer is registered
or makes 2³² changes. -/
def Regular (behaviour : Behaviour ω) : Nat → ArrayList ω → List ω → Prop
  | _, _, [] => True
  | n, l, o :: rest => ∃ r l', (behaviour n o).alone l = some (r, l') ∧
      l'.modCount < l.modCount + 2 ^ 32 ∧
        (r = .ok () → l' = l → Regular behaviour (n + 1) l rest)

variable {l : ArrayList ω} {seen rest : List ω} {steps : Nat}

/-- The loop at an observer whose callback is known by itself. -/
theorem body_of_alone (fuel : Nat) {o : ω} {r : Except Unchecked Unit} {l' : ArrayList ω}
    (hl : s.mObservers = l) (h : (behaviour s.told.length o).alone l = some (r, l')) :
    ∃ s', (observerLoop behaviour (Watched.invalidatedSessionError behaviour (fuel + 2))).body o s =
        some (r, s') ∧
      s'.mObservers = l' ∧ s'.told = s.told ++ [o] := by
  subst hl
  exact Callback.run_of_alone (s := { s with told := s.told ++ [o] }) h

theorem forEach_orderly (fuel : Nat) (hl : s.mObservers = l) (helems : l.elems = seen ++ rest)
    (hsteps : rest.length < steps) (h : Orderly behaviour s.told.length l rest) :
    ∃ s', (observerLoop behaviour (Watched.invalidatedSessionError behaviour (fuel + 2))).forEach
        l.modCount steps seen.length s = some (.ok (), s') ∧
      s'.told = s.told ++ rest := by
  induction rest generalizing s seen steps with
  | nil =>
      obtain ⟨steps, rfl⟩ : ∃ n, steps = n + 1 := ⟨steps - 1, by omega⟩
      refine ⟨s, ArrayList.Loop.forEach_done ?_, (List.append_nil _).symm⟩
      show seen.length = s.mObservers.size
      rw [hl, ArrayList.size, helems, List.append_nil]
  | cons o rest ih =>
      obtain ⟨steps, rfl⟩ : ∃ n, steps = n + 1 := ⟨steps - 1, by omega⟩
      have hnext : s.mObservers.next l.modCount seen.length = .element o := by
        rw [hl]
        exact ArrayList.next_element helems
      cases rest with
      | nil =>
          obtain ⟨l', halone, hsize⟩ := h
          obtain ⟨s', hbody, hlist, htold⟩ := body_of_alone fuel hl halone
          refine ⟨s', ?_, htold⟩
          rw [ArrayList.Loop.forEach_element hnext hbody]
          obtain ⟨steps, rfl⟩ : ∃ n, steps = n + 1 := ⟨steps - 1, by simp at hsteps; omega⟩
          apply ArrayList.Loop.forEach_done
          show seen.length + 1 = s'.mObservers.size
          rw [hlist, hsize, ArrayList.size, helems, List.length_append, List.length_singleton]
      | cons o' rest =>
          obtain ⟨halone, horderly⟩ := h
          obtain ⟨s', hbody, hlist, htold⟩ := body_of_alone fuel hl halone
          rw [ArrayList.Loop.forEach_element hnext hbody]
          have hlength : s'.told.length = s.told.length + 1 := by
            rw [htold, List.length_append, List.length_singleton]
          have hseen : (seen ++ [o]).length = seen.length + 1 := by
            rw [List.length_append, List.length_singleton]
          have helems' : l.elems = (seen ++ [o]) ++ o' :: rest := by
            rw [helems, List.append_assoc, List.singleton_append]
          have hsteps' : (o' :: rest).length < steps := Nat.lt_of_succ_lt_succ hsteps
          obtain ⟨s'', hloop, htold'⟩ := ih hlist helems' hsteps' (hlength ▸ horderly)
          rw [hseen] at hloop
          refine ⟨s'', hloop, ?_⟩
          rw [htold', htold, List.append_assoc, List.singleton_append]

/-- Behind a callback that has changed the list the loop ends or throws. -/
theorem forEach_regular (fuel : Nat) (hl : s.mObservers = l) (helems : l.elems = seen ++ rest)
    (hsteps : rest.length < steps) (h : Regular behaviour s.told.length l rest) :
    ∃ r s', (observerLoop behaviour (Watched.invalidatedSessionError behaviour (fuel + 2))).forEach
        l.modCount steps seen.length s = some (r, s') ∧
      (r = .ok () → s'.told.length = s.told.length + rest.length →
        Orderly behaviour s.told.length l rest) := by
  induction rest generalizing s seen steps with
  | nil =>
      obtain ⟨steps, rfl⟩ : ∃ n, steps = n + 1 := ⟨steps - 1, by omega⟩
      refine ⟨.ok (), s, ArrayList.Loop.forEach_done ?_, fun _ _ => trivial⟩
      show seen.length = s.mObservers.size
      rw [hl, ArrayList.size, helems, List.append_nil]
  | cons o rest ih =>
      obtain ⟨steps, rfl⟩ : ∃ n, steps = n + 2 := ⟨steps - 2, by simp at hsteps; omega⟩
      have hnext : s.mObservers.next l.modCount seen.length = .element o := by
        rw [hl]
        exact ArrayList.next_element helems
      obtain ⟨r, l', halone, hbound, hregular⟩ := h
      obtain ⟨s', hbody, hlist, htold⟩ := body_of_alone fuel hl halone
      have hlength : s'.told.length = s.told.length + 1 := by
        rw [htold, List.length_append, List.length_singleton]
      cases r with
      | error e =>
          refine ⟨.error e, s', ArrayList.Loop.forEach_throw hnext hbody, ?_⟩
          intro hok
          cases hok
      | ok u =>
          rw [ArrayList.Loop.forEach_element hnext hbody]
          rcases Callback.alone_follows halone with rfl | hlt
          · -- the list is as it was
            have hseen : (seen ++ [o]).length = seen.length + 1 := by
              rw [List.length_append, List.length_singleton]
            have helems' : l'.elems = (seen ++ [o]) ++ rest := by
              rw [helems, List.append_assoc, List.singleton_append]
            have hsteps' : rest.length < steps + 1 := Nat.lt_of_succ_lt_succ hsteps
            obtain ⟨r, s'', hloop, horderly⟩ :=
              ih hlist helems' hsteps' (hlength ▸ hregular rfl rfl)
            rw [hseen] at hloop
            refine ⟨r, s'', hloop, fun hok hcount => ?_⟩
            have hrest := horderly hok (by simp at hcount ⊢; omega)
            rw [hlength] at hrest
            cases rest with
            | nil => exact ⟨l', halone, rfl⟩
            | cons o' rest => exact ⟨halone, hrest⟩
          · by_cases hsize : seen.length + 1 = l'.size
            · -- the loop ends here, with whom it has told
              subst hlist
              refine ⟨.ok (), s', ArrayList.Loop.forEach_done hsize, ?_⟩
              intro _ hcount
              have hrest : rest = [] := by
                rw [hlength, List.length_cons] at hcount
                exact List.length_eq_zero_iff.mp (by omega)
              subst hrest
              refine ⟨s'.mObservers, halone, ?_⟩
              rw [← hsize, ArrayList.size, helems, List.length_append, List.length_singleton]
            · refine ⟨.error .ConcurrentModificationException, s', ?_, ?_⟩
              · apply ArrayList.Loop.forEach_comodified
                show s'.mObservers.next l.modCount (seen.length + 1) = .comodified
                rw [hlist]
                exact ArrayList.next_comodified hsize hlt hbound
              · intro hok
                cases hok

/-! ## One detection -/

theorem toldOnce_of_orderly (h : Orderly behaviour s.told.length s.mObservers s.mObservers.elems) :
    ToldOnce behaviour s := by
  have helems : s.mObservers.elems = [] ++ s.mObservers.elems := rfl
  have hsteps : s.mObservers.elems.length < s.mObservers.elems.length + 2 := by omega
  obtain ⟨s', hloop, htold⟩ := forEach_orderly s.mObservers.elems.length rfl helems hsteps h
  refine ⟨s.mObservers.elems.length + 3,
    { s' with _instance := none, mObservers := s'.mObservers.clear }, s.mObservers.elems, ?_, htold,
    .refl _, rfl, ?_⟩
  · rw [invalidatedSessionError_succ]
    exact congrArg (Option.map afterLoop) hloop
  · intro observer _
    exact List.not_mem_nil

theorem orderly_of_toldOnce
    (hregular : Regular behaviour s.told.length s.mObservers s.mObservers.elems)
    (h : ToldOnce behaviour s) :
    Orderly behaviour s.told.length s.mObservers s.mObservers.elems := by
  obtain ⟨fuel, s', told, hdetect, htold, hperm, -, -⟩ := h
  have helems : s.mObservers.elems = [] ++ s.mObservers.elems := rfl
  have hsteps : s.mObservers.elems.length < s.mObservers.elems.length + 2 := by omega
  obtain ⟨r, u, hloop, horderly⟩ :=
    forEach_regular s.mObservers.elems.length rfl helems hsteps hregular
  have hbig : s.invalidatedSessionError behaviour (s.mObservers.elems.length + 3) =
      some (afterLoop (r, u)) := by
    rw [invalidatedSessionError_succ]
    exact congrArg (Option.map afterLoop) hloop
  have hend := invalidatedSessionError_unique hbig hdetect
  cases r with
  | error e => cases hend
  | ok v =>
      apply horderly rfl
      have hu : u.told = s'.told := congrArg (fun r => r.2.told) hend
      rw [hu, htold, List.length_append, hperm.length_eq]

/-- Orderly callbacks are told once, and regular ones, under the iterator of OpenJDK, only if
they are orderly. -/
theorem toldOnce_orderly (behaviour : Behaviour ω) (s : Watched ω) :
    (Orderly behaviour s.told.length s.mObservers s.mObservers.elems → ToldOnce behaviour s) ∧
      (Regular behaviour s.told.length s.mObservers s.mObservers.elems → ToldOnce behaviour s →
        Orderly behaviour s.told.length s.mObservers s.mObservers.elems) :=
  ⟨toldOnce_of_orderly, orderly_of_toldOnce⟩

/-! ## Two observers -/

/-- One observer is registered twice; no callback does anything. -/
theorem toldOnce_passive :
    ToldOnce (fun _ _ => .returns) ⟨some ⟨0, "/data"⟩, ⟨[1, 2, 1], 3⟩, []⟩ :=
  (toldOnce_orderly (fun _ _ => .returns) ⟨some ⟨0, "/data"⟩, ⟨[1, 2, 1], 3⟩, []⟩).1
    ⟨rfl, rfl, ⟨[1, 2, 1], 3⟩, rfl, rfl⟩

/-- The first observer unregisters itself: the cursor then equals the size, and the second
is never told. -/
theorem not_toldOnce_self_removal :
    ¬ ∀ (behaviour : Behaviour Bool) (s : Watched Bool), ToldOnce behaviour s := by
  intro h
  let behaviour : Behaviour Bool := fun _ o =>
    if o then .removeObserver true fun _ => .returns else .returns
  let s : Watched Bool := ⟨some ⟨0, "/data"⟩, ⟨[true, false], 2⟩, []⟩
  have hdetect : s.invalidatedSessionError behaviour 4 =
      some (.SuShellInvalidatedException, ⟨none, ⟨[], 4⟩, [true]⟩) := by
    decide +kernel
  obtain ⟨fuel, s', told, hdetect', htold, hperm, -⟩ := h behaviour s
  have hend := invalidatedSessionError_unique hdetect hdetect'
  have hs : s'.told = [true] := (congrArg (fun r => r.2.told) hend).symm
  have hlength : told.length = 2 := hperm.length_eq
  rw [htold] at hs
  have hone : told.length = 1 := congrArg List.length hs
  omega

/-! ## Observers that detect again -/

/-- The callback detects before it ends, and unregisters nobody until then. -/
def Callback.Redetects : Callback ω → Prop
  | .returns | .throws _ | .removeObserver _ _ => False
  | .ping _ | .exec _ => True
  | .addObserver _ next => ∀ count, (next count).Redetects

/-- Whatever the notification, the callback leaves the list alone and returns. -/
def Unobtrusive (behaviour : Behaviour ω) (o : ω) : Prop :=
  ∀ n l, (behaviour n o).alone l = some (.ok (), l)

section Redetects

variable {o : ω} {front back : List ω}

theorem Callback.run_of_redetects {callback : Callback ω} (h : callback.Redetects)
    (hdetect : ∀ s : Watched ω, ∀ back, s.mObservers.elems = front ++ o :: back → detect s = none)
    (helems : s.mObservers.elems = front ++ o :: back) : callback.run detect s = none := by
  induction callback generalizing s back with
  | returns | throws | removeObserver => exact h.elim
  | ping next =>
      rw [run, Watched.ping, hdetect s back helems]
      rfl
  | exec next =>
      rw [run, Watched.exec, hdetect s back helems]
      rfl
  | addObserver observer next ih =>
      have hadded : (s.addObserver observer).mObservers.elems =
          front ++ o :: (back ++ [observer]) := by
        show s.mObservers.elems ++ [observer] = _
        rw [helems, List.append_assoc, List.cons_append]
      exact ih _ (h _) hadded

/-- The loop reaches the observer, if it gets past those before him at all. -/
theorem forEach_of_redetects (hfront : ∀ o' ∈ front, Unobtrusive behaviour o')
    (ho : ∀ n, (behaviour n o).Redetects)
    (hdetect : ∀ s : Watched ω, ∀ back, s.mObservers.elems = front ++ o :: back →
      s.invalidatedSessionError behaviour fuel = none)
    (hl : s.mObservers = l) (helems : l.elems = front ++ o :: back) {seen rest : List ω}
    (hsplit : front = seen ++ rest) (steps : Nat) :
    (observerLoop behaviour (Watched.invalidatedSessionError behaviour fuel)).forEach
      l.modCount steps seen.length s = none := by
  induction rest generalizing s seen steps with
  | nil =>
      rw [List.append_nil] at hsplit
      cases steps with
      | zero => rfl
      | succ steps =>
          have hnext : s.mObservers.next l.modCount seen.length = .element o := by
            rw [hl]
            exact ArrayList.next_element (by rw [helems, hsplit])
          refine ArrayList.Loop.forEach_stuck hnext ?_
          apply Callback.run_of_redetects (s := { s with told := s.told ++ [o] }) (ho _) hdetect
          rw [← helems, ← hl]
  | cons o' rest ih =>
      cases steps with
      | zero => rfl
      | succ steps =>
          have hnext : s.mObservers.next l.modCount seen.length = .element o' := by
            rw [hl]
            apply ArrayList.next_element
            rw [helems, hsplit, List.append_assoc, List.cons_append]
          cases hbody : (observerLoop behaviour
              (Watched.invalidatedSessionError behaviour fuel)).body o' s with
          | none => exact ArrayList.Loop.forEach_stuck hnext hbody
          | some r =>
              have hmem : o' ∈ front := by
                rw [hsplit]
                exact List.mem_append_right seen List.mem_cons_self
              obtain ⟨s', hrun, hlist, -⟩ := body_of_alone fuel hl (hfront o' hmem s.told.length l)
              have hmore : (observerLoop behaviour
                  (Watched.invalidatedSessionError behaviour (fuel + 2))).body o' s = some r :=
                Callback.run_mono (fun s r => invalidatedSessionError_mono (by omega)) hbody
              rw [hrun] at hmore
              rw [← hmore] at hbody
              rw [ArrayList.Loop.forEach_element hnext hbody]
              have hseen : (seen ++ [o']).length = seen.length + 1 := by
                rw [List.length_append, List.length_singleton]
              have hsplit' : front = (seen ++ [o']) ++ rest := by
                rw [hsplit, List.append_assoc, List.singleton_append]
              rw [← hseen]
              exact ih hlist hsplit' steps

end Redetects

end Susrv.Java
