import LoadHook.Proofs.Fence.Heap

/-!
# Scripts outside of a fence

A computation holds a fence if it leaves a sealed heap sealed whenever it asks its host for
something and when it ends, as long as the host does so too, and if what it ends with comes from
outside of the fence. This is so for every way of composing computations if it is so for the parts.
-/
namespace LoadHook.Script.Fence

variable (F : Fence) {α β : Type}

/-- Modules are asked for from the given directories only. -/
def Allows : Request → Prop
  | .require _ dir _ => F.dirs dir
  | .print _ _ => True

/-- A value, or one that is thrown, is no object behind the fence. -/
def FreeAnswer : Except Value Value → Prop
  | .ok v | .error v => F.FreeValue v

/-- If a value is thrown, it is no object behind the fence. -/
def FreeAbrupt : Abrupt → Prop
  | .thrown v => F.FreeValue v
  | .overflow | .absent => True

/-- What a computation ends with: a result of a kind, or no result. -/
def FreeResult (Q : α → Prop) : Except Abrupt α → Prop
  | .ok a => Q a
  | .error e => F.FreeAbrupt e

/-- A running script keeps a heap sealed. -/
inductive Keeps (n : Nat) (Q : α → Prop) : Run (Except Abrupt α × Heap) → Prop
  | done {r : Except Abrupt α} {h : Heap} :
      F.Sealed n h → F.FreeResult Q r → Keeps n Q (.done (r, h))
  | ask {q : Request} {h : Heap} {next : Except Value Value → Heap → Run (Except Abrupt α × Heap)} :
      F.Sealed n h → F.Allows q →
      (∀ a v, F.FreeAnswer a → F.Sealed h.realms.size v → Keeps n Q (next a v)) →
      Keeps n Q (.ask q h next)

/-- A computation keeps every heap of at least `n` realms sealed, and ends with a result of a kind,
or with something from outside of the fence. -/
def Holds (n : Nat) (Q : α → Prop) (x : Eval α) : Prop := ∀ h, F.Sealed n h → F.Keeps n Q (x h)

variable {F} {n m : Nat} {Q Q' : α → Prop} {R : β → Prop}

theorem FreeResult.mono {r : Except Abrupt α} (hr : F.FreeResult Q r) (hQ : ∀ a, Q a → Q' a) :
    F.FreeResult Q' r := by
  cases r with
  | ok a => exact hQ a hr
  | error e => exact hr

namespace Keeps

variable {x : Run (Except Abrupt α × Heap)}

theorem mono (hx : F.Keeps m Q x) (hn : n ≤ m) (hQ : ∀ a, Q a → Q' a) : F.Keeps n Q' x := by
  induction hx with
  | done hs hr => exact .done (hs.mono hn) (hr.mono hQ)
  | ask hs hq _ ih => exact .ask (hs.mono hn) hq ih

/-- A script goes on with another when it has ended. -/
theorem bind {f : Except Abrupt α × Heap → Run (Except Abrupt β × Heap)} (hx : F.Keeps n Q x)
    (hf : ∀ r h, F.Sealed n h → F.FreeResult Q r → F.Keeps n R (f (r, h))) :
    F.Keeps n R (x.bind f) := by
  induction hx with
  | done hs hr => exact hf _ _ hs hr
  | ask hs hq _ ih => exact .ask hs hq ih

end Keeps

namespace Holds

variable {x : Eval α} {f : α → Eval β}

theorem pure {a : α} (ha : Q a) : F.Holds n Q (Pure.pure a : Eval α) := fun _ hs => .done hs ha

theorem stop {e : Abrupt} (he : F.FreeAbrupt e) : F.Holds n Q (Eval.stop e : Eval α) :=
  fun _ hs => .done hs he

theorem throw {v : Value} (hv : F.FreeValue v) : F.Holds n Q (Eval.throw v : Eval α) := stop hv

theorem bind (hx : F.Holds n Q x) (hf : ∀ a, Q a → F.Holds n R (f a)) :
    F.Holds n R (x >>= f) := by
  intro h hs
  refine (hx h hs).bind fun r h hs hr => ?_
  cases r with
  | ok a => exact hf a hr h hs
  | error e => exact .done hs hr

theorem pure_bind {a : α} (hf : F.Holds n R (f a)) :
    F.Holds n R ((Pure.pure a : Eval α) >>= f) := fun h hs => hf h hs

/-- A result is changed when the computation has ended. -/
theorem map (hx : F.Holds n Q x) {g : α → β} (hg : ∀ a, Q a → R (g a)) :
    F.Holds n R (x >>= fun a => Pure.pure (g a)) := hx.bind fun a ha => .pure (hg a ha)

theorem outcome (hx : F.Holds n Q x) : F.Holds n (F.FreeResult Q) (Eval.outcome x) :=
  fun h hs => (hx h hs).bind fun _ _ hs hr => .done hs hr

theorem ofResult {r : Except Abrupt α} (hr : F.FreeResult Q r) : F.Holds n Q (Eval.ofResult r) := by
  cases r with
  | ok a => exact .pure hr
  | error e => exact .stop hr

theorem read {g : Heap → α} (hg : ∀ h, F.Sealed n h → Q (g h)) : F.Holds n Q (Eval.read g) :=
  fun h hs => .done hs (hg h hs)

/-- After the heap has been read it has as many realms as it had, or more. -/
theorem read_bind {g : Heap → α} (hf : ∀ h, F.Sealed n h → F.Holds h.realms.size R (f (g h))) :
    F.Holds n R (Eval.read g >>= f) :=
  fun h hs => (hf h hs h hs.grown).mono hs.realmSize fun _ hb => hb

theorem change {g : Heap → Heap} (hg : ∀ h, F.Sealed n h → F.Sealed n (g h)) :
    F.Holds n (fun _ => True) (Eval.change g) := fun h hs => .done (hg h hs) trivial

theorem update {g : Heap → α × Heap}
    (hg : ∀ h, F.Sealed n h → Q (g h).1 ∧ F.Sealed n (g h).2) : F.Holds n Q (Eval.update g) :=
  fun h hs => .done (hg h hs).2 (hg h hs).1

theorem ask {q : Request} (hq : F.Allows q) : F.Holds n F.FreeValue (Eval.ask q) := by
  intro h hs
  refine .ask hs hq fun a v ha hv => ?_
  cases a <;> exact .done (hv.mono hs.realmSize) ha

theorem ite {c : Prop} [Decidable c] {y : Eval α} (hx : F.Holds n Q x) (hy : F.Holds n Q y) :
    F.Holds n Q (if c then x else y) := by
  split
  · exact hx
  · exact hy

/-- What may come first under a condition comes first. -/
theorem guard {c : Prop} [Decidable c] {y : Eval Unit} {k : Unit → Eval α}
    (hy : F.Holds n (fun _ => True) y) (hk : F.Holds n Q (k ())) :
    F.Holds n Q (if c then y >>= k else k ()) := ite (hy.bind fun _ _ => hk) hk

theorem each {g : α → Eval Unit} {l : List α}
    (hg : ∀ a ∈ l, F.Holds n (fun _ => True) (g a)) :
    F.Holds n (fun _ => True) (Eval.each g l) := by
  induction l with
  | nil => exact .pure trivial
  | cons a rest ih =>
    obtain ⟨ha, hrest⟩ := List.forall_mem_cons.mp hg
    exact ha.bind fun _ _ => ih hrest

theorem collect {l : List α} (hf : ∀ a ∈ l, F.Holds n R (f a)) :
    F.Holds n (fun bs => ∀ b ∈ bs, R b) (Eval.collect f l) := by
  induction l with
  | nil => exact .pure nofun
  | cons a rest ih =>
    obtain ⟨ha, hrest⟩ := List.forall_mem_cons.mp hf
    exact ha.bind fun b hb => (ih hrest).map fun bs hbs => List.forall_mem_cons.mpr ⟨hb, hbs⟩

/-- A loop keeps what each round keeps of the state that it goes round with. -/
theorem loop {P : β → Prop} {step : β → Eval (β ⊕ α)} {b : β} (hb : P b)
    (hstep : ∀ b, P b → F.Holds n (Sum.elim P Q) (step b)) (fuel : Nat) :
    F.Holds n Q (Eval.loop fuel step b) := by
  induction fuel generalizing b with
  | zero => exact fun h hs => .done hs trivial
  | succ fuel ih =>
    intro h hs
    have hround := hstep b hb h hs
    rw [Eval.loop]
    generalize step b h = round at hround
    cases hround with
    | @done r h hs hr =>
      rcases r with e | b | a
      · exact .done hs hr
      · exact ih hr h hs
      · exact .done hs hr
    | ask hs hq hround =>
      refine .ask hs hq fun a v ha hv => (hround a v ha hv).bind fun r h hs hr => ?_
      rcases r with e | b | a
      · exact .done hs hr
      · exact ih hr h hs
      · exact .done hs hr

end Holds
end LoadHook.Script.Fence
