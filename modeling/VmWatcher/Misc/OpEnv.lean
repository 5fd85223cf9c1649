import VmWatcher.Misc.OpProg

/-!
# Programs in an environment

An environment says which operations may succeed and which may fail in which store.
`Obeys may s evs` says of a run that all its operations ended as the environment allows,
and `wpUnder may prog post s` is the precondition for all such runs at once. Where
nothing is allowed it holds for no reason: `exists_obeying` supplies the run.
-/

namespace VmWatcher.OpProg

variable {Op : Type} {Res : Op → Type} {Err α β S T : Type}

/-- Each operation ended as the environment allows in the store it was called in. -/
def Obeys (may : Op → Option Err → S → Prop) : S → List (Event Op Err S) → Prop
  | _, [] => True
  | s, ev :: evs => may ev.op ev.error s ∧ Obeys may ev.after evs

/-- The precondition for all runs the environment allows. -/
def wpUnder (eff : (op : Op) → S → Res op × S) (may : Op → Option Err → S → Prop) :
    OpProg Op Res Err α → (α → S → Prop) → S → Prop
  | done a, post, s => post a s
  | call op next, post, s =>
      (may op none s → wpUnder eff may (next (.ok (eff op s).1)) post (eff op s).2) ∧
        ∀ e, may op (some e) s → wpUnder eff may (next (.error e)) post s

variable {eff : (op : Op) → S → Res op × S} {may may' : Op → Option Err → S → Prop}
variable {post post' : α → S → Prop} {s s' : S}

@[simp] theorem wpUnder_done (a : α) : wpUnder eff may (done a) post s ↔ post a s := Iff.rfl

theorem wpUnder_call {op : Op} {next : Except Err (Res op) → OpProg Op Res Err α} :
    wpUnder eff may (call op next) post s ↔
      (may op none s → wpUnder eff may (next (.ok (eff op s).1)) post (eff op s).2) ∧
        ∀ e, may op (some e) s → wpUnder eff may (next (.error e)) post s := Iff.rfl

theorem wpUnder_mono {prog : OpProg Op Res Err α} (h : wpUnder eff may prog post s)
    (himp : ∀ a s', post a s' → post' a s') : wpUnder eff may prog post' s := by
  induction prog generalizing s with
  | done a => exact himp a s h
  | call op next ih =>
    obtain ⟨hnext, hfail⟩ := h
    exact ⟨fun hop => ih _ (hnext hop), fun e hop => ih _ (hfail e hop)⟩

theorem wpUnder_bind {prog : OpProg Op Res Err α} {f : α → OpProg Op Res Err β}
    {post : β → S → Prop} :
    wpUnder eff may (prog >>= f) post s ↔
      wpUnder eff may prog (fun a s' => wpUnder eff may (f a) post s') s := by
  induction prog generalizing s with
  | done a => exact Iff.rfl
  | call op next ih =>
    rw [call_bind, wpUnder_call, wpUnder_call]
    simp only [ih]

/-- Two preconditions of one program hold together. -/
theorem wpUnder_and {prog : OpProg Op Res Err α} (h : wpUnder eff may prog post s)
    (h' : wpUnder eff may prog post' s) :
    wpUnder eff may prog (fun a s' => post a s' ∧ post' a s') s := by
  induction prog generalizing s with
  | done a => exact ⟨h, h'⟩
  | call op next ih =>
    obtain ⟨hnext, hfail⟩ := h
    obtain ⟨hnext', hfail'⟩ := h'
    exact ⟨fun hop => ih _ (hnext hop) (hnext' hop), fun e hop => ih _ (hfail e hop) (hfail' e hop)⟩

/-- What holds whatever fails holds in every environment. -/
theorem wp.under {ok : Op → S → Prop} {prog : OpProg Op Res Err α}
    {post : List (Event Op Err S) → α → S → Prop} (h : wp eff ok prog post s) :
    wpUnder eff may prog (fun a s' => ∃ evs, post evs a s') s := by
  induction prog generalizing post s with
  | done a => exact ⟨[], h⟩
  | call op next ih =>
    obtain ⟨-, hnext, hfail⟩ := h
    refine ⟨fun _ => wpUnder_mono (ih _ hnext) ?_, fun e _ => wpUnder_mono (ih _ (hfail e)) ?_⟩
    · intro a s' given
      obtain ⟨evs, h⟩ := given
      exact ⟨_, h⟩
    · intro a s' given
      obtain ⟨evs, h⟩ := given
      exact ⟨_, h⟩

/-- An invariant that every allowed success keeps holds at the end. -/
theorem wpUnder_invariant {inv : S → Prop}
    (keeps : ∀ op s, inv s → may op none s → inv (eff op s).2) (prog : OpProg Op Res Err α)
    (hs : inv s) : wpUnder eff may prog (fun _ s' => inv s') s := by
  induction prog generalizing s with
  | done a => exact hs
  | call op next ih => exact ⟨fun hop => ih _ (keeps op s hs hop), fun e _ => ih _ hs⟩

/-- A postcondition that always holds. -/
theorem wpUnder_of_forall (prog : OpProg Op Res Err α) (h : ∀ a s', post a s') :
    wpUnder eff may prog post s := by
  induction prog generalizing s with
  | done a => exact h a s
  | call op next ih => exact ⟨fun _ => ih _, fun e _ => ih _⟩

/-- A program whose next operation may only succeed. -/
theorem wpUnder_call_of_only {op : Op} {next : Except Err (Res op) → OpProg Op Res Err α}
    (only : ∀ e, ¬ may op (some e) s)
    (h : wpUnder eff may (next (.ok (eff op s).1)) post (eff op s).2) :
    wpUnder eff may (call op next) post s :=
  ⟨fun _ => h, fun e hop => absurd hop (only e)⟩

/-- Every run the environment allows ends as the precondition says. -/
theorem wpUnder_sound {prog : OpProg Op Res Err α} {evs : List (Event Op Err S)} {a : α}
    (h : wpUnder eff may prog post s) (run : Runs eff prog s evs a s')
    (obeys : Obeys may s evs) : post a s' := by
  induction run with
  | done a s => exact h
  | ok _ ih => exact ih (h.1 obeys.1) obeys.2
  | fail e _ ih => exact ih (h.2 e obeys.1) obeys.2

variable (may) in
/-- An environment that always allows something allows a run. -/
theorem exists_obeying (total : ∀ op s, may op none s ∨ ∃ e, may op (some e) s)
    (prog : OpProg Op Res Err α) (s : S) :
    ∃ evs a s', Runs eff prog s evs a s' ∧ Obeys may s evs := by
  induction prog generalizing s with
  | done a => exact ⟨[], a, s, .done a s, trivial⟩
  | call op next ih =>
    rcases total op s with hop | ⟨e, hop⟩
    · obtain ⟨evs, a, s', run, obeys⟩ := ih (.ok (eff op s).1) (eff op s).2
      exact ⟨_, a, s', .ok run, hop, obeys⟩
    · obtain ⟨evs, a, s', run, obeys⟩ := ih (.error e) s
      exact ⟨_, a, s', .fail e run, hop, obeys⟩

/-- What an environment says of all stores holds of every operation of the run. -/
theorem Obeys.forall {P : Op → Option Err → Prop} {evs : List (Event Op Err S)}
    (h : Obeys (fun op e _ => P op e) s evs) : ∀ ev ∈ evs, P ev.op ev.error := by
  induction evs generalizing s with
  | nil => exact nofun
  | cons ev evs ih => exact List.forall_mem_cons.mpr ⟨h.1, ih h.2⟩

/-- A run obeys an environment of a view when what the view shows of it does. -/
theorem Obeys.map {view : S → T} {may : Op → Option Err → T → Prop}
    {evs : List (Event Op Err S)} {s : S} (h : Obeys (fun op e s => may op e (view s)) s evs) :
    Obeys may (view s) (evs.map (Event.map view)) := by
  induction evs generalizing s with
  | nil => trivial
  | cons ev evs ih => exact ⟨h.1, ih h.2⟩

end VmWatcher.OpProg
