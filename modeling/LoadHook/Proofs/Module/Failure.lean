import LoadHook.Proofs.Module.Object

/-!
# What failures say

A failure is an error of the host, or a value that a script has thrown. Where it crosses from the
host into a script it becomes a thrown value, and where it leaves all scripts it becomes an error
again. `Failure.Means` gives the text of a failure, and `throwable_means` and `caught_of_means` say
that both crossings keep it.

Every error object that the language or the host makes holds its message and its stack itself, and
all stacks are the same. So what a failure is outside of scripts does not depend on where in the
heap its object stands: `Failure.Leaves` says what it is, and the crossings into scripts and out of
them keep that.
-/
namespace LoadHook

open Script (Value RealmRef Ref Heap Eval Key Property)

namespace Script

variable {h : Heap} {r : Ref} {k : Key} {v : Value} {s : Text.Utf16} {text : String}

/-- The key under which an error holds its message. -/
def messageKey : Key := key "message"

/-- The key under which an error holds its stack. -/
def stackKey : Key := key "stack"

namespace Heap

/-- A property is found as data, in an object or above it. -/
def Finds (h : Heap) (r : Ref) (k : Key) (v : Value) : Prop :=
  ∃ writable e c, h.find r k = some ⟨.data v writable, e, c⟩

theorem Holds.finds (hk : h.Holds r k v) : h.Finds r k v := by
  obtain ⟨w, e, c, hown⟩ := hk
  exact ⟨w, e, c, find_of_own hown⟩

/-- An object is an error whose message is a text. Neither its message nor its stack is computed
when it is read. -/
structure Shows (h : Heap) (r : Ref) (text : String) : Prop where
  kind : (h.object r).kind = .error
  message : ∃ s, h.Finds r messageKey (.str s) ∧ Text.Utf16.toString? s = .ok text
  stack : h.find r stackKey = none ∨ ∃ v, h.Finds r stackKey v ∧ v.ref? = none

end Heap

namespace Machine

variable (m : Machine) (realm : RealmRef)

theorem getRef_of_finds (hk : h.Finds r k v) : m.getRef realm r k h = .done (.ok v, h) := by
  obtain ⟨w, e, c, hfind⟩ := hk
  simp only [getRef, Eval.read_bind, hfind, valueOf]
  rfl

theorem getRef_of_find_eq_none (hk : h.find r k = none) :
    m.getRef realm r k h = .done (.ok .undefined, h) := by
  simp only [getRef, Eval.read_bind, hk, valueOf]
  rfl

end Machine

theorem Eval.outcome_of_done {α : Type} {x : Eval α} {a : α} {h' : Heap}
    (hx : x h = .done (.ok a, h')) : Eval.outcome x h = .done (.ok (.ok a), h') := by
  simp [Eval.outcome, hx]

end Script

namespace Load

variable {realm : RealmRef} {h : Heap} {r : Ref} {v : Value} {s : Text.Utf16} {text : String}

open Script.Machine

/-- A part of an error that is found as a text is that text. -/
theorem errorPart_of_text {name : String} (hv : h.Finds r (Script.key name) (.str s)) :
    errorPart realm r name h = .done (.ok (Text.Utf16.toString? s).toOption, h) := by
  have hget := getRef_of_finds Script.standardMachine realm hv
  rw [errorPart, Eval.bind_of_done (Eval.outcome_of_done ?part)]
  case part => exact Eval.bind_of_done hget
  rfl

/-- A part of an error that is found as data is read without running a script. -/
theorem errorPart_of_finds {name : String} (hv : h.Finds r (Script.key name) v)
    (hp : v.ref? = none) : ∃ o, errorPart realm r name h = .done (.ok o, h) := by
  have hget := getRef_of_finds Script.standardMachine realm hv
  cases v with
  | obj r => cases hp
  | str s => exact ⟨_, errorPart_of_text hv⟩
  | undefined | null =>
    refine ⟨none, ?_⟩
    rw [errorPart, Eval.bind_of_done (Eval.outcome_of_done (Eval.bind_of_done hget))]
    rfl
  | bool b | num x =>
    rw [errorPart, Eval.bind_of_done (Eval.outcome_of_done (Eval.bind_of_done hget))]
    exact ⟨_, rfl⟩

/-- A part of an error that is found nowhere is missing. -/
theorem errorPart_of_find_eq_none {name : String} (hv : h.find r (Script.key name) = none) :
    errorPart realm r name h = .done (.ok none, h) := by
  have hget := getRef_of_find_eq_none Script.standardMachine realm hv
  rw [errorPart, Eval.bind_of_done (Eval.outcome_of_done (Eval.bind_of_done hget))]
  rfl

/-- What is left of an error outside of scripts has the message of the error. -/
theorem describe_of_shows (realm : RealmRef) (hv : h.Shows r text) :
    ∃ stack, describe realm (.obj r) h = .done (.ok (.exception text stack), h) := by
  obtain ⟨s, hs, ht⟩ := hv.message
  have hmessage : errorPart realm r "message" h = .done (.ok (some text), h) := by
    rw [errorPart_of_text hs, ht]
    rfl
  obtain ⟨stack, hstack⟩ : ∃ o, errorPart realm r "stack" h = .done (.ok o, h) := by
    rcases hv.stack with hnone | ⟨v, hfinds, hp⟩
    · exact ⟨none, errorPart_of_find_eq_none hnone⟩
    · exact errorPart_of_finds hfinds hp
  refine ⟨stack, ?_⟩
  rw [describe, Eval.read_bind]
  simp only [hv.kind]
  rw [Eval.bind_of_done hmessage, Eval.bind_of_done hstack]
  rfl

end Load

/-! ## The text of a failure -/

/-- A failure has a text: what was thrown shows it, or it is the text of an error that is not the
engine's own. -/
def Failure.Means (h : Heap) (text : String) : Failure → Prop
  | .thrown v => ∃ r, v = .obj r ∧ h.Shows r text
  | .error e => (∀ kind s, e ≠ .engine kind s) ∧ e.message = text

/-- An error object of the host shows its message. -/
theorem shows_addError (h : Heap) (realm : RealmRef) (text : String) :
    (h.addError realm .error [(Script.key "message", .plain (.text text)),
      Script.stackProperty]).2.Shows h.objects.size text := by
  have hobject : (h.addError realm .error [(Script.key "message", .plain (.text text)),
      Script.stackProperty]).2.object h.objects.size = _ := Script.Heap.object_addObject_self
  refine ⟨by rw [hobject], ⟨.ofString text, ?message, Text.Utf16.toString?_ofString text⟩,
    .inr ⟨.text Script.stackText, ?stack, rfl⟩⟩
  case message =>
    refine Script.Heap.Holds.finds ⟨true, true, true, ?_⟩
    rw [Script.Heap.own, hobject]
    rfl
  case stack =>
    refine Script.Heap.Holds.finds ⟨true, false, true, ?_⟩
    rw [Script.Heap.own, hobject]
    rfl

variable {e : Failure} {w : Workspace} {text : String}

/-- Going into a script a failure keeps its text. Nothing else of the heap changes. -/
theorem throwable_means (realm : RealmRef) (he : e.Means w.heap text) :
    ∃ r h, Load.throwable realm e w = .done (.ok (.obj r), { w with heap := h }) ∧
      w.heap.Extends h ∧ h.Shows r text := by
  cases e with
  | thrown v =>
    obtain ⟨r, rfl, hr⟩ := he
    exact ⟨r, w.heap, rfl, .refl _, hr⟩
  | error e =>
    obtain ⟨hkind, rfl⟩ := he
    refine ⟨w.heap.objects.size, _, ?_, .addObject _ _, shows_addError w.heap realm e.message⟩
    cases e with
    | engine kind s => exact absurd rfl (hkind kind s)
    | _ => exact Load.script_update _

/-- Going out of all scripts a failure keeps its text, and an error of the host is left as it is. -/
theorem caught_of_means (realm : RealmRef) (he : e.Means w.heap text) :
    ∃ err : LoadError, Load.caught realm e w = .done (.ok err, w) ∧ err.message = text ∧
      ((∃ v, e = .thrown v) → ∃ stack, err = .exception text stack) ∧
      ∀ err', e = .error err' → err = err' := by
  cases e with
  | thrown v =>
    obtain ⟨r, rfl, hr⟩ := he
    obtain ⟨stack, hd⟩ := Load.describe_of_shows realm hr
    exact ⟨_, Load.script_of_done hd, rfl, fun _ => ⟨stack, rfl⟩, by simp⟩
  | error e => exact ⟨e, rfl, he.2, by simp, by simp⟩

/-! ## What is left of failures -/

/-- An object is an error as it has been made, with a message. -/
structure Script.Heap.Reports (h : Heap) (r : Ref) (text : String) : Prop where
  kind : (h.object r).kind = .error
  message : h.Holds r Script.messageKey (.text text)
  stack : h.Holds r Script.stackKey (.text Script.stackText)

/-- What a failure is outside of scripts. -/
def Failure.Leaves (h : Heap) (err : LoadError) : Failure → Prop
  | .thrown v => ∃ r text, v = .obj r ∧ h.Reports r text ∧
      err = .exception text (some Script.stackText)
  | .error e => err = e

/-- The message with which an error goes into a script. -/
def LoadError.thrownText : LoadError → String
  | .engine _ text => text
  | e => e.message

variable {h : Heap} {r : Ref} {realm : RealmRef} {text : String} {w : Workspace} {err : LoadError}
  {e : Failure}

/-- An error is made with its message and its stack. -/
theorem reports_addError (h : Heap) (realm : RealmRef) (kind : Script.ErrorKind) (text : String)
    (shown c : Bool) :
    (h.addError realm kind [(Script.messageKey, ⟨.data (.text text) true, shown, c⟩),
      Script.stackProperty]).2.Reports h.objects.size text := by
  have hobject : (h.addError realm kind [(Script.messageKey, ⟨.data (.text text) true, shown, c⟩),
      Script.stackProperty]).2.object h.objects.size = _ := Heap.object_addObject_self
  refine ⟨by rw [hobject], ⟨true, shown, c, ?_⟩, ⟨true, false, true, ?_⟩⟩
  · rw [Heap.own, hobject]
    rfl
  · rw [Heap.own, hobject]
    rfl

/-- What is thrown by the language itself. -/
theorem raise_done (α : Type) (realm : RealmRef) (kind : Script.ErrorKind) (text : String)
    (h : Heap) : ∃ g, (Script.raise realm kind text : Eval α) h =
      .done (.error (.thrown (.obj h.objects.size)), g) ∧ h.Extends g ∧
        g.Reports h.objects.size text :=
  ⟨_, rfl, .addObject _ _, reports_addError h realm kind text false true⟩

/-- What is thrown by the host. -/
theorem hostError_done (realm : RealmRef) (text : String) (h : Heap) :
    ∃ g, Script.hostError realm text h = .done (.ok (.obj h.objects.size), g) ∧ h.Extends g ∧
      g.Reports h.objects.size text :=
  ⟨_, rfl, .addObject _ _, reports_addError h realm .error text true true⟩

namespace Load

/-- What is left of an error that reports a message. -/
theorem describe_of_reports (realm : RealmRef) (hr : h.Reports r text) :
    describe realm (.obj r) h = .done (.ok (.exception text (some Script.stackText)), h) := by
  have hmessage : errorPart realm r "message" h = .done (.ok (some text), h) := by
    rw [errorPart_of_text hr.message.finds, Text.Utf16.toString?_ofString]
    rfl
  have hstack : errorPart realm r "stack" h = .done (.ok (some Script.stackText), h) := by
    rw [errorPart_of_text hr.stack.finds, Text.Utf16.toString?_ofString]
    rfl
  rw [describe, Eval.read_bind]
  simp only [hr.kind]
  rw [Eval.bind_of_done hmessage, Eval.bind_of_done hstack]
  rfl

/-- Outside of scripts a failure is what it leaves. -/
theorem caught_of_leaves (realm : RealmRef) (he : e.Leaves w.heap err) :
    caught realm e w = .done (.ok err, w) := by
  cases e with
  | thrown v =>
    obtain ⟨r, text, rfl, hr, rfl⟩ := he
    exact script_of_done (describe_of_reports realm hr)
  | error e =>
    cases he
    rfl

/-- A failure leaves one error only. -/
theorem leaves_unique {err' : LoadError} (he : e.Leaves h err) (he' : e.Leaves h err') :
    err = err' := by
  cases e with
  | error e => exact he.trans he'.symm
  | thrown v =>
    obtain ⟨r, text, rfl, hr, rfl⟩ := he
    obtain ⟨_, text', ⟨⟩, hr', rfl⟩ := he'
    have hsame := (describe_of_reports Host.homeRealm hr).symm.trans
      (describe_of_reports Host.homeRealm hr')
    cases hsame
    rfl

/-- Going into a script a failure becomes an error object with the message of what it leaves. -/
theorem throwable_of_leaves (realm : RealmRef) (he : e.Leaves w.heap err) :
    ∃ r h, throwable realm e w = .done (.ok (.obj r), { w with heap := h }) ∧ w.heap.Extends h ∧
      h.Reports r err.thrownText := by
  cases e with
  | thrown v =>
    obtain ⟨r, text, rfl, hr, rfl⟩ := he
    exact ⟨r, w.heap, rfl, .refl _, hr⟩
  | error e =>
    cases he
    have hhost (text : String) : ∃ r h, script (Script.hostError realm text) w =
        .done (.ok (.obj r), { w with heap := h }) ∧ w.heap.Extends h ∧ h.Reports r text :=
      ⟨_, _, script_update _, .addObject _ _, reports_addError w.heap realm .error text true true⟩
    cases err with
    | engine kind text =>
      exact ⟨_, _, script_update _, .addObject _ _,
        reports_addError w.heap realm kind text false true⟩
    | _ => exact hhost _

end Load
end LoadHook
