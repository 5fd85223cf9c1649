import VmWatcher.Misc.OpProg

/-!
# Programs under a plan of failures

A plan says for each key which of the operations under it fail: the first, the second and
so on. It fixes the run of a program (`Runs.deterministic`), and the run of a program that
works under one key is fixed by what the plan says of that key.
-/

namespace VmWatcher.OpProg

variable {Op : Type} {Res : Op → Type} {Err α β S T K : Type} [DecidableEq K]

/-- One more operation under the key. -/
def bump (k : K) (seen : K → ℕ) : K → ℕ := fun k' => if k' = k then seen k' + 1 else seen k'

/-- Every operation ended as planned; `seen` counts the operations before under each key. -/
def Planned (keyOf : Op → K) (plan : K → ℕ → Op → Option Err) :
    (K → ℕ) → List (Event Op Err S) → Prop
  | _, [] => True
  | seen, ev :: evs => ev.error = plan (keyOf ev.op) (seen (keyOf ev.op)) ev.op ∧
      Planned keyOf plan (bump (keyOf ev.op) seen) evs

/-- The operations under each key, after these and those before. -/
def count (keyOf : Op → K) (seen : K → ℕ) (evs : List (Event Op Err S)) : K → ℕ :=
  evs.foldl (fun seen ev => bump (keyOf ev.op) seen) seen

variable {eff : (op : Op) → S → Res op × S} {keyOf : Op → K} {plan plan' : K → ℕ → Op → Option Err}
variable {seen seen' : K → ℕ} {evs evs' : List (Event Op Err S)} {s s' s'' : S}

theorem planned_append : Planned keyOf plan seen (evs ++ evs') ↔
    Planned keyOf plan seen evs ∧ Planned keyOf plan (count keyOf seen evs) evs' := by
  induction evs generalizing seen with
  | nil => exact ⟨fun h => ⟨trivial, h⟩, And.right⟩
  | cons ev evs ih =>
    simp only [List.cons_append, Planned, ih, and_assoc]
    rfl

/-- Operations under other keys do not count. -/
theorem count_of_ne {k : K} (other : ∀ ev ∈ evs, keyOf ev.op ≠ k) :
    count keyOf seen evs k = seen k := by
  induction evs generalizing seen with
  | nil => rfl
  | cons ev evs ih =>
    have hne : k ≠ keyOf ev.op := (other ev List.mem_cons_self).symm
    refine (ih fun ev' hev' => other ev' (List.mem_cons_of_mem _ hev')).trans ?_
    exact if_neg hne

/-- Every plan has its run. -/
theorem exists_planned (prog : OpProg Op Res Err α) (plan : K → ℕ → Op → Option Err)
    (seen : K → ℕ) (s : S) :
    ∃ evs a s', Runs eff prog s evs a s' ∧ Planned keyOf plan seen evs := by
  induction prog generalizing seen s with
  | done a => exact ⟨[], a, s, .done a s, trivial⟩
  | call op next ih =>
    cases planned : plan (keyOf op) (seen (keyOf op)) op with
    | none =>
      obtain ⟨evs, a, s', run, rest⟩ := ih (.ok (eff op s).1) (bump (keyOf op) seen) (eff op s).2
      exact ⟨_, a, s', .ok run, planned.symm, rest⟩
    | some e =>
      obtain ⟨evs, a, s', run, rest⟩ := ih (.error e) (bump (keyOf op) seen) s
      exact ⟨_, a, s', .fail e run, planned.symm, rest⟩

/-- A run whose operations are all under one key is fixed by the plan of that key. -/
theorem Runs.deterministic {prog : OpProg Op Res Err α} {a a' : α} {k : K}
    (run : Runs eff prog s evs a s') (run' : Runs eff prog s evs' a' s'')
    (only : ∀ ev ∈ evs, keyOf ev.op = k) (planned : Planned keyOf plan seen evs)
    (planned' : Planned keyOf plan' seen' evs') (same : plan k = plan' k) (at_ : seen k = seen' k) :
    a = a' ∧ s' = s'' := by
  induction run generalizing seen seen' evs' with
  | done a s =>
    cases run'
    exact ⟨rfl, rfl⟩
  | @ok op next s s' evs a _ ih =>
    have hkey : keyOf op = k := only _ List.mem_cons_self
    have rest := fun ev hev => only ev (List.mem_cons_of_mem _ hev)
    have next_at : bump (keyOf op) seen k = bump (keyOf op) seen' k := by
      simp [bump, hkey, at_]
    cases run' with
    | ok run' => exact ih run' rest planned.2 planned'.2 next_at
    | fail e _ =>
      have := planned.1.trans (by rw [hkey, same, at_, ← hkey, ← planned'.1])
      cases this
  | @fail op next s s' evs a e _ ih =>
    have hkey : keyOf op = k := only _ List.mem_cons_self
    have rest := fun ev hev => only ev (List.mem_cons_of_mem _ hev)
    have next_at : bump (keyOf op) seen k = bump (keyOf op) seen' k := by
      simp [bump, hkey, at_]
    cases run' with
    | ok _ =>
      have := planned.1.trans (by rw [hkey, same, at_, ← hkey, ← planned'.1])
      cases this
    | fail e' run' =>
      have := planned.1.trans (by rw [hkey, same, at_, ← hkey, ← planned'.1])
      obtain rfl := Option.some.inj this
      exact ih run' rest planned.2 planned'.2 next_at

/-- Runs of a store are runs of a view that respects the operations that are called. -/
theorem Runs.map_of {eff' : (op : Op) → T → Res op × T} (view : S → T) {p : Op → Prop}
    (respects : ∀ op s, p op → ((eff op s).1, view (eff op s).2) = eff' op (view s))
    {prog : OpProg Op Res Err α} {a : α} (run : Runs eff prog s evs a s')
    (only : ∀ ev ∈ evs, p ev.op) :
    Runs eff' prog (view s) (evs.map (Event.map view)) a (view s') := by
  induction run with
  | done a s => exact .done a (view s)
  | @ok op next s s' evs a _ ih =>
    have hrun := respects op s (only _ List.mem_cons_self)
    have hres : (eff op s).1 = (eff' op (view s)).1 := congrArg Prod.fst hrun
    have hview : view (eff op s).2 = (eff' op (view s)).2 := congrArg Prod.snd hrun
    have rest := ih fun ev hev => only ev (List.mem_cons_of_mem _ hev)
    rw [hres, hview] at rest
    simp only [List.map_cons, Event.map, hview]
    exact .ok rest
  | fail e _ ih => exact .fail e (ih fun ev hev => only ev (List.mem_cons_of_mem _ hev))

/-- A view of the store does not show whether a run was planned. -/
theorem planned_map {view : S → T} :
    Planned keyOf plan seen (evs.map (Event.map view)) ↔ Planned keyOf plan seen evs := by
  induction evs generalizing seen with
  | nil => exact Iff.rfl
  | cons ev evs ih => exact and_congr Iff.rfl ih

/-- Every operation of a run was called in a store that admits it. -/
theorem wp_admits {ok : Op → S → Prop} {post : List (Event Op Err S) → α → S → Prop}
    {prog : OpProg Op Res Err α} {a : α} (h : wp eff ok prog post s)
    (run : Runs eff prog s evs a s') : ∀ ev ∈ evs, ∃ s, ok ev.op s := by
  induction run generalizing post with
  | done a s => nofun
  | ok _ ih =>
    intro ev hev
    rcases List.mem_cons.mp hev with rfl | hev
    · exact ⟨_, h.1⟩
    · exact ih h.2.1 ev hev
  | fail e _ ih =>
    intro ev hev
    rcases List.mem_cons.mp hev with rfl | hev
    · exact ⟨_, h.1⟩
    · exact ih (h.2.2 e) ev hev

end VmWatcher.OpProg
