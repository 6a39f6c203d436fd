import LoadHook.Proofs.Module.Composed

/-!
# Stretches of a dialogue

A step of a load runs without a break from its start, or from the answer to what it has asked for,
to what it asks for next, or to its end. `Stretches` says what each of these stretches does,
whatever is answered in between. By itself a script adds to the heap and to the log; the files and
the hooks are left to the handlers.

While a step of a load waits for a module anything may be done with the world and with the hooks.
So what the steps do to a hook is told by a history that they and the answers only add to: `Grows`
follows it along a dialogue.
-/
namespace LoadHook

open Script (Value RealmRef Ref Eval)

/-- Only the heap and the log differ. -/
structure Workspace.Inner (w w' : Workspace) : Prop where
  hooks : w'.hooks = w.hooks
  world : { w'.world with log := w.world.log } = w.world

namespace Workspace.Inner

variable {w w₁ w₂ : Workspace}

theorem refl (w : Workspace) : Inner w w := ⟨rfl, rfl⟩

theorem trans (h₁ : Inner w w₁) (h₂ : Inner w₁ w₂) : Inner w w₂ where
  hooks := h₂.hooks.trans h₁.hooks
  world := by
    have hw := congrArg (fun v : World => { v with log := w.world.log }) h₂.world
    exact hw.trans h₁.world

theorem at? (h : Inner w w₁) (number : Nat) : Hook.at? w₁ number = Hook.at? w number := by
  rw [Hook.at?, Hook.at?, h.hooks]

end Workspace.Inner

/-- The hook of a number is as it was. -/
def Workspace.Same (number : Nat) (w w' : Workspace) : Prop :=
  Hook.at? w' number = Hook.at? w number

theorem Workspace.Same.trans {number : Nat} {w w₁ w₂ : Workspace} (h₁ : w.Same number w₁)
    (h₂ : w₁.Same number w₂) : w.Same number w₂ := Eq.trans h₂ h₁

/-- Another hook comes after those that are there. -/
theorem Host.same_addHook {h : Host} {number : Nat} {c : Hook}
    (hc : Hook.at? h.workspace number = some c) (k : Hook) :
    h.workspace.Same number (h.addHook k).2.workspace := by
  obtain ⟨hlt, -⟩ := Array.getElem?_eq_some_iff.mp hc
  exact (Array.getElem?_push_lt hlt).trans (Array.getElem?_eq_getElem hlt).symm

namespace Load

variable {α β : Type} {S : Workspace → Workspace → Prop} {F F' : α → Workspace → Workspace → Prop}
  {G : β → Workspace → Workspace → Prop} {v w w' : Workspace}

/-- However a dialogue is answered, each stretch of its own to a question or to a failure is one of
`S`, and the stretch to its end with a value is one of `F`. -/
inductive Stretches (S : Workspace → Workspace → Prop) (F : α → Workspace → Workspace → Prop) :
    Workspace → Talk (Except Failure α × Workspace) → Prop
  | done {w w' : Workspace} {a : α} : F a w w' → Stretches S F w (.done (.ok a, w'))
  | failed {w w' : Workspace} {e : Failure} : S w w' → Stretches S F w (.done (.error e, w'))
  | ask {w w' : Workspace} {q : Requirement}
      {next : Except Value Value → Workspace → Talk (Except Failure α × Workspace)} :
      S w w' → (∀ a v, Stretches S F v (next a v)) → Stretches S F w (.ask q w' next)

namespace Stretches

variable {d : Talk (Except Failure α × Workspace)}

theorem mono {S' : Workspace → Workspace → Prop} (hS : ∀ w w', S w w' → S' w w')
    (hF : ∀ a w w', F a w w' → F' a w w') (hd : Stretches S F w d) : Stretches S' F' w d := by
  induction hd with
  | done h => exact .done (hF _ _ _ h)
  | failed h => exact .failed (hS _ _ h)
  | ask h _ ih => exact .ask (hS _ _ h) ih

/-- The first stretch may begin earlier. -/
theorem lead (hS : ∀ w', S w w' → S v w') (hF : ∀ a w', F a w w' → F a v w')
    (hd : Stretches S F w d) : Stretches S F v d := by
  cases hd with
  | done h => exact .done (hF _ _ h)
  | failed h => exact .failed (hS _ h)
  | ask h hnext => exact .ask (hS _ h) hnext

/-- One step after another: what comes second goes on with the last stretch of the first. -/
theorem bind {x : Load α} {f : α → Load β} (hx : Stretches S F w (x w))
    (hf : ∀ a w w', F a w w' → Stretches S G w (f a w')) : Stretches S G w ((x >>= f) w) := by
  change Stretches S G w (Load.bind x f w)
  rw [Load.bind]
  generalize x w = d at hx
  induction hx with
  | done h => exact hf _ _ _ h
  | failed h => exact .failed h
  | ask h _ ih => exact .ask h ih

end Stretches

/-- A step that by itself changes nothing but the heap and the log. -/
def Secluded (x : Load α) : Prop :=
  ∀ w, Stretches Workspace.Inner (fun _ => Workspace.Inner) w (x w)

namespace Secluded

variable {x : Load α} {f : α → Load β}

theorem pure (a : α) : Secluded (Pure.pure a : Load α) := fun w => .done (.refl w)

theorem fail (e : LoadError) : Secluded (Load.fail e : Load α) := fun w => .failed (.refl w)

theorem read (f : Workspace → α) : Secluded (Load.read f) := fun w => .done (.refl w)

/-- What comes after a stretch that leaves the files and the hooks alone. -/
theorem after (hx : Secluded x) (h : w.Inner w') :
    Stretches Workspace.Inner (fun _ => Workspace.Inner) w (x w') :=
  (hx w').lead (fun _ => h.trans) fun _ _ => h.trans

theorem bind (hx : Secluded x) (hf : ∀ a, Secluded (f a)) : Secluded (x >>= f) :=
  fun w => (hx w).bind fun a _ _ h => (hf a).after h

/-- A failure that is passed on as a value changes nothing more. -/
theorem outcome (hx : Secluded x) : Secluded (Load.outcome x) := by
  intro w
  have hx := hx w
  rw [Load.outcome]
  generalize x w = d at hx
  induction hx with
  | done h => exact .done h
  | failed h => exact .done h
  | ask h _ ih => exact .ask h ih

end Secluded

/-- A step that leaves the hook of a number to what it asks for. -/
def Spares (number : Nat) (x : Load α) : Prop :=
  ∀ w, Stretches (Workspace.Same number) (fun _ => Workspace.Same number) w (x w)

section Spares

variable {number : Nat} {x : Load α} {f : α → Load β}

/-- A step that changes nothing but the heap and the log leaves the hooks alone. -/
theorem Secluded.spares (hx : Secluded x) : Spares number x := fun w =>
  (hx w).mono (fun _ _ hw => hw.at? number) fun _ _ _ hw => hw.at? number

theorem Spares.bind (hx : Spares number x) (hf : ∀ a, Spares number (f a)) :
    Spares number (x >>= f) :=
  fun w => (hx w).bind fun a _ w' hw => (hf a w').lead (fun _ => hw.trans) fun _ _ => hw.trans

end Spares

/-! ## Composed steps -/

/-- A running script writes lines and asks for modules, and does nothing else to the world. -/
theorem stretches_ofRun (x : Script.Run (Except Script.Abrupt α × Script.Heap)) (h : w.Inner w') :
    Stretches Workspace.Inner (fun _ => Workspace.Inner) w (ofRun w' x) := by
  induction x generalizing w w' with
  | done r =>
    obtain ⟨r, heap⟩ := r
    cases r with
    | ok a => exact .done (h.trans ⟨rfl, rfl⟩)
    | error e => exact .failed (h.trans ⟨rfl, rfl⟩)
  | ask q heap next ih =>
    cases q with
    | print level text => exact ih _ _ (h.trans ⟨rfl, rfl⟩)
    | require specifier dir realm => exact .ask (h.trans ⟨rfl, rfl⟩) fun a v => ih _ _ (.refl v)

/-- What a step is composed of leaves the files and the hooks to what is asked for. -/
theorem Composed.secluded {x : Load α} (hx : Composed x) : Secluded x := by
  induction hx with
  | pure a => exact .pure a
  | fail e => exact .fail e
  | read => exact .read _
  | report level source text => exact fun _ => .done ⟨rfl, rfl⟩
  | script x => exact fun w => stretches_ofRun _ (.refl w)
  | bind _ _ ihx ihf => exact ihx.bind ihf
  | outcome _ ih => exact ih.outcome

/-! ## Histories along a load -/

section Histories

variable {ε α β : Type} {I : List ε → Workspace → Prop} {H H' : List ε} {w w' : Workspace}
  {post : α → List ε → Prop} {number : Nat}

/-- However a dialogue is answered, as long as the answers only add to the history it only adds to
it too, and `I` holds whenever it asks and at its end. -/
inductive Grows (I : List ε → Workspace → Prop) (post : α → List ε → Prop) :
    List ε → Talk (Except Failure α × Workspace) → Prop
  | done {H H' : List ε} {r : Except Failure α} {w : Workspace} : H <:+ H' → I H' w →
      (∀ a, r = .ok a → post a H') → Grows I post H (.done (r, w))
  | ask {H H' : List ε} {q : Requirement} {w : Workspace}
      {next : Except Value Value → Workspace → Talk (Except Failure α × Workspace)} :
      H <:+ H' → I H' w →
      (∀ a w' H'', H' <:+ H'' → I H'' w' → Grows I post H'' (next a w')) →
      Grows I post H (.ask q w next)

/-- What is so after a history is so after every longer one. -/
def Lasting (P : List ε → Prop) : Prop := ∀ H H', H <:+ H' → P H → P H'

/-- What is said of a hook after a history: the hook is there, and whatever happens to anything
else, it is said again after a longer history. -/
structure About (number : Nat) (I : List ε → Workspace → Prop) : Prop where
  present : ∀ H w, I H w → (Hook.at? w number).isSome
  alone : ∀ H w w', I H w → Hook.at? w' number = Hook.at? w number → ∃ H', H <:+ H' ∧ I H' w'

namespace Grows

variable {x : Talk (Except Failure α × Workspace)}

theorem of_suffix (hs : H <:+ H') (hx : Grows I post H' x) : Grows I post H x := by
  cases hx with
  | done hs' hI hr => exact .done (hs.trans hs') hI hr
  | ask hs' hI hnext => exact .ask (hs.trans hs') hI hnext

/-- What lasts and held before still holds after the dialogue. -/
theorem frame {P : List ε → Prop} (hP : Lasting P) (hx : Grows I post H x) (h : P H) :
    Grows I (fun a H => post a H ∧ P H) H x := by
  induction hx with
  | done hs hI hr => exact .done hs hI fun a ha => ⟨hr a ha, hP _ _ hs h⟩
  | ask hs hI _ ih =>
    exact .ask hs hI fun a w' H'' hs' hI' => ih a w' H'' hs' hI' (hP _ _ (hs.trans hs') h)

/-- One step after another. -/
theorem bind {x : Load α} {f : α → Load β} {post' : β → List ε → Prop}
    (hx : Grows I post H (x w)) (hf : ∀ a H w, post a H → I H w → Grows I post' H (f a w)) :
    Grows I post' H ((x >>= f) w) := by
  change Grows I post' H (Load.bind x f w)
  rw [Load.bind]
  generalize x w = d at hx
  induction hx with
  | @done H H' r w hs hI hr =>
    cases r with
    | ok a => exact (hf a H' w (hr a rfl) hI).of_suffix hs
    | error e => exact .done hs hI (by simp)
  | ask hs hI _ ih => exact .ask hs hI ih

end Grows

/-- A step that only adds to the history, whatever it is. -/
def Aside (I : List ε → Workspace → Prop) (x : Load α) : Prop :=
  ∀ H w, I H w → Grows I (fun _ _ => True) H (x w)

namespace Aside

variable {x : Load α} {f : α → Load β}

theorem done {r : Except Failure α} (hI : I H w) : Grows I (fun _ _ => True) H (.done (r, w)) :=
  .done (List.suffix_refl H) hI fun _ _ => trivial

theorem bind (hx : Aside I x) (hf : ∀ a, Aside I (f a)) : Aside I (x >>= f) :=
  fun H w hI => (hx H w hI).bind fun a H w _ hI => hf a H w hI

end Aside

/-! ## Steps that leave a hook alone -/

section Steps

variable (hI : About number I) {x : Load α}
include hI

/-- A step that by itself leaves a hook alone only adds to what is told of the hook. -/
theorem Spares.aside (hx : Spares number x) : Aside I x := by
  have hend {r : Except Failure α} {H : List ε} {w w' : Workspace} (h : I H w)
      (hw : w.Same number w') : Grows I (fun _ _ => True) H (.done (r, w')) := by
    obtain ⟨H', hs, hI'⟩ := hI.alone H w w' h hw
    exact .done hs hI' fun _ _ => trivial
  intro H w h
  have hd := hx w
  generalize x w = d at hd
  induction hd generalizing H with
  | done hw | failed hw => exact hend h hw
  | ask hw _ ih =>
    obtain ⟨H', hs, h'⟩ := hI.alone H _ _ h hw
    exact .ask hs h' fun a v H'' _ h'' => ih a v H'' h''

theorem Secluded.aside (hx : Secluded x) : Aside I x := hx.spares.aside hI

end Steps

end Histories

end Load
end LoadHook
