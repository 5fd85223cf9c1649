import VmWatcher.Misc.OpProg

/-!
# Programs on a store that others write to

Between any two operations of a program the store may drift. What a view shows of the
store stays put when nobody else can change it, and then a run amid the drift is, seen
through the view, a run of the program alone (`RunsAmid.map`).
-/

namespace VmWatcher.OpProg

variable {Op : Type} {Res : Op → Type} {Err α β S T : Type}

/-- A run of the program on a store that drifts before and after every operation. -/
inductive RunsAmid (drift : S → S → Prop) (eff : (op : Op) → S → Res op × S) :
    OpProg Op Res Err α → S → List (Event Op Err S) → α → S → Prop where
  | done (a : α) (s : S) : RunsAmid drift eff (done a) s [] a s
  | drift {prog : OpProg Op Res Err α} {s s₁ s' : S} {evs : List (Event Op Err S)} {a : α} :
      drift s s₁ → RunsAmid drift eff prog s₁ evs a s' → RunsAmid drift eff prog s evs a s'
  | ok {op : Op} {next : Except Err (Res op) → OpProg Op Res Err α} {s s' : S}
      {evs : List (Event Op Err S)} {a : α} :
      RunsAmid drift eff (next (.ok (eff op s).1)) (eff op s).2 evs a s' →
      RunsAmid drift eff (call op next) s (⟨op, none, (eff op s).2⟩ :: evs) a s'
  | fail {op : Op} {next : Except Err (Res op) → OpProg Op Res Err α} {s s' : S}
      {evs : List (Event Op Err S)} {a : α} (e : Err) :
      RunsAmid drift eff (next (.error e)) s evs a s' →
      RunsAmid drift eff (call op next) s (⟨op, some e, s⟩ :: evs) a s'

variable {drift : S → S → Prop} {eff : (op : Op) → S → Res op × S} {s s' : S} {a : α}
variable {prog : OpProg Op Res Err α} {evs : List (Event Op Err S)}

/-- A run that nothing disturbs. -/
theorem Runs.amid (h : Runs eff prog s evs a s') : RunsAmid drift eff prog s evs a s' := by
  induction h with
  | done a s => exact .done a s
  | ok _ ih => exact .ok ih
  | fail e _ ih => exact .fail e ih

/-- Through a view that the drift does not change and that respects the operations, a run
amid the drift is a run. -/
theorem RunsAmid.map {eff' : (op : Op) → T → Res op × T} {view : S → T}
    (still : ∀ s s', drift s s' → view s' = view s)
    (respects : ∀ op s, ((eff op s).1, view (eff op s).2) = eff' op (view s))
    (h : RunsAmid drift eff prog s evs a s') :
    Runs eff' prog (view s) (evs.map (Event.map view)) a (view s') := by
  induction h with
  | done a s => exact .done a (view s)
  | drift moved _ ih =>
    rw [← still _ _ moved]
    exact ih
  | @ok op next s s' evs a _ ih =>
    have hrun := respects op s
    have hres : (eff op s).1 = (eff' op (view s)).1 := congrArg Prod.fst hrun
    have hview : view (eff op s).2 = (eff' op (view s)).2 := congrArg Prod.snd hrun
    rw [hres, hview] at ih
    simp only [List.map_cons, Event.map, hview]
    exact .ok ih
  | fail e _ ih => exact .fail e ih

end VmWatcher.OpProg
