import LoadHook.Proofs.Fence.Heap
import LoadHook.Proofs.Script.Realm

/-!
# New realms outside of a fence

The objects of a new realm are new, and lead to each other only. So a sealed heap stays sealed when
a realm is made, and code may run for that realm.
-/
namespace LoadHook.Script.Fence

open Heap (Above)

variable {F : Fence} {n : Nat} {h : Heap} {r : Realm} {s : Ref} {m realm : RealmRef}

/-- The objects above those of a realm that is made outside of the fence. -/
theorem freeRealm_of_above (hs : F.Sealed n h) (ha : Above h.objects.size r) : F.FreeRealm r where
  objectProto := free_of_size_le (Nat.le_trans hs.size ha.objectProto)
  functionProto := free_of_size_le (Nat.le_trans hs.size ha.functionProto)
  arrayProto := free_of_size_le (Nat.le_trans hs.size ha.arrayProto)
  stringProto := free_of_size_le (Nat.le_trans hs.size ha.stringProto)
  numberProto := free_of_size_le (Nat.le_trans hs.size ha.numberProto)
  booleanProto := free_of_size_le (Nat.le_trans hs.size ha.booleanProto)
  errorProtos e he := free_of_size_le (Nat.le_trans hs.size (ha.errorProtos e he))

namespace Sealed

/-! ## Built-in objects -/

theorem addNative {f : Native} (hs : F.Sealed n h) (hp : F.Free s) (hf : F.CleanNative n f m)
    (name : String) (arity : Nat) : F.Sealed n (h.addNative m s f name arity).2 :=
  hs.addObject ⟨hf.mono hs.realmSize, freeRef?_some.mpr hp, by simp⟩

theorem giveFunctions {functionProto : Ref} (hs : F.Sealed n h) (hp : F.Free functionProto)
    (hr : F.Free s) (owner : Owner) (fs : List BuiltIn) :
    F.Sealed n (h.giveFunctions m functionProto s owner fs) := by
  simp only [Heap.giveFunctions]
  induction fs generalizing h with
  | nil => exact hs
  | cons f fs ih =>
    exact ih ((hs.addNative (f := .method owner f.name) hp trivial _ _).putData hr _ hs.free_new)

theorem giveConstants (hs : F.Sealed n h) (hr : F.Free s) (constants : List (String × Float)) :
    F.Sealed n (h.giveConstants s constants) := by
  simp only [Heap.giveConstants]
  induction constants generalizing h with
  | nil => exact hs
  | cons c rest ih => exact ih (hs.putData hr _ trivial)

/-- Showing the properties of an object changes what none of them holds. -/
theorem showAll (hs : F.Sealed n h) (hr : F.Free s) :
    F.Sealed n (h.modifyObject s fun o =>
      { o with props := o.props.map fun p => (p.1, { p.2 with enumerable := true }) }) :=
  have hclean := hs.object s hr
  hs.modifyObject hr ⟨hclean.kind, hclean.proto, hclean.props.map fun _ he => he⟩

variable (hs : F.Sealed n h) (hr : F.FreeRealm r) (hg : F.Free r.global)
include hs hr hg

theorem addMaker {maker : Maker} (hmaker : F.CleanNative n (.maker maker) realm) (name : String)
    {proto : Ref} (hp : F.Free proto) : F.Sealed n (h.addMaker realm r maker name proto).2 :=
  have hf : F.FreeValue (.obj h.objects.size) := hs.free_new
  have hnative := hs.addNative hr.functionProto hmaker name 1
  ((hnative.putData hs.free_new _ (freeValue_obj.mpr hp)).putData hp _ hf).putData hg _ hf

theorem addHolder {k : Kind} (hk : F.CleanKind h.realms.size k) (owner : Owner) (name : String) :
    F.Sealed n (h.addHolder m r owner name k).2 :=
  have ho := hs.addObject ⟨hk, freeRef?_some.mpr hr.objectProto, cleanProps_nil⟩
  (ho.giveFunctions hr.functionProto hs.free_new _ _).putData hg _ hs.free_new

theorem addErrors {base : Ref} (hb : F.Free base) : F.Sealed n (h.addErrors realm r base) := by
  have hmaker (kind : ErrorKind) : F.CleanNative n (.maker (.error kind)) realm := trivial
  have hmethods := (hs.addMaker hr hg (hmaker .error) ErrorKind.error.name hb).giveFunctions
    (m := realm) hr.functionProto hb .errorPrototype BuiltIn.errorMethods
  have hbase : F.Free (h.addMaker realm r (.error .error) ErrorKind.error.name base).1 :=
    hs.free_new
  have hprotos := hr.errorProtos
  simp only [Heap.addErrors]
  generalize r.errorProtos = protos at hprotos
  generalize Prod.fst _ = errorMaker at hbase
  generalize Heap.giveFunctions _ _ _ _ _ _ = g at hmethods
  induction protos generalizing g with
  | nil => exact hmethods
  | cons e rest ih =>
    obtain ⟨kind, proto⟩ := e
    have hproto : F.Free proto := hprotos (kind, proto) List.mem_cons_self
    refine ih (fun e he => hprotos e (List.mem_cons_of_mem _ he)) _ ?_
    have hnamed := (hmethods.putOwn hproto (key "name")
      (clean_hidden.mpr (freeValue_text (s := kind.name)))).putOwn hproto (key "message")
      (clean_hidden.mpr (freeValue_text (s := "")))
    dsimp only
    split
    · exact hnamed
    · exact (hnamed.addMaker hr hg (hmaker kind) _ hproto).withProto hnamed.free_new
        (freeRef?_some.mpr hbase)

omit hg in
theorem giveMethods : F.Sealed n (h.giveMethods realm r) := by
  have hf := hr.functionProto
  -- the last step comes first
  unfold Heap.giveMethods
  refine giveFunctions ?_ hf hr.booleanProto _ _
  refine giveFunctions ?_ hf hr.numberProto _ _
  refine giveFunctions ?_ hf hr.stringProto _ _
  refine giveFunctions ?_ hf hr.arrayProto _ _
  refine giveFunctions ?_ hf hf _ _
  have hmethods := hs.giveFunctions (m := realm) hf hr.objectProto .objectPrototype
    BuiltIn.objectMethods
  have hgetter := hmethods.addNative (f := .method .objectPrototype "get __proto__") (m := realm)
    hf trivial "get __proto__" 0
  have hsetter := hgetter.addNative (f := .method .objectPrototype "set __proto__") (m := realm)
    hf trivial "set __proto__" 1
  exact hsetter.putOwn hr.objectProto _ (clean_accessor.mpr
    ⟨freeRef?_some.mpr hmethods.free_new, freeRef?_some.mpr hgetter.free_new⟩)

/-- The constructor of functions belongs to the realm. -/
theorem giveMakers (hm : F.CleanNative n (.maker .function) realm) :
    F.Sealed n (h.giveMakers realm r) := by
  have maker {h : Heap} (hs : F.Sealed n h) {k : Maker} (hk : F.CleanNative n (.maker k) realm)
      (name : String) {proto : Ref} (hp : F.Free proto) :
      F.Sealed n (h.addMaker realm r k name proto).2 := hs.addMaker hr hg hk name hp
  have hf := hr.functionProto
  have hobject := (maker hs (k := .object) trivial "Object" hr.objectProto).giveFunctions
    (m := realm) hf hs.free_new .object BuiltIn.objectFunctions
  have hfunction := maker hobject hm "Function" hf
  have harray := (maker hfunction (k := .array) trivial "Array" hr.arrayProto).giveFunctions
    (m := realm) hf hfunction.free_new .array BuiltIn.arrayFunctions
  have hstring := (maker harray (k := .string) trivial "String" hr.stringProto).giveFunctions
    (m := realm) hf harray.free_new .string BuiltIn.textFunctions
  have hnumber := (maker hstring (k := .number) trivial "Number" hr.numberProto).giveFunctions
    (m := realm) hf hstring.free_new .number BuiltIn.numberFunctions
  have hconstants := hnumber.giveConstants hstring.free_new BuiltIn.numberConstants
  exact maker hconstants (k := .boolean) trivial "Boolean" hr.booleanProto

theorem giveGlobals : F.Sealed n (h.giveGlobals realm r) := by
  have hf := hr.functionProto
  have hnames := ((hs.putOwn hg (key "undefined") (p := ⟨.data .undefined false, false, false⟩)
    trivial).giveConstants hg [("NaN", Numeric.nan), ("Infinity", Numeric.infinity)]).putOwn hg
    (key "globalThis") (p := .hidden (.obj r.global)) hg
  have hfunctions := hnames.giveFunctions (m := realm) hf hg .global BuiltIn.globalFunctions
  have hmath := (hfunctions.addHolder hr hg (m := realm) (k := .tagged "Math") trivial .math
    "Math").giveConstants hfunctions.free_new BuiltIn.mathConstants
  have hjson := hmath.addHolder hr hg (m := realm) (k := .tagged "JSON") trivial .json "JSON"
  have hclock := (hjson.addHolder hr hg (m := realm) (k := .plain) trivial .performance
    "performance").showAll hjson.free_new
  exact (hclock.putOwn hjson.free_new (key "timeOrigin") (p := .plain (.num 0)) trivial).putOwn hg
    (key "performance") (p := .plain (.obj _)) hjson.free_new

end Sealed

/-! ## The realm -/

namespace Sealed

/-- The objects that stand above the others of a new realm lead to each other. -/
theorem addProtos (hs : F.Sealed n h) : F.Sealed n h.addProtos.2.2 := by
  have hobject := hs.addPlain freeRef?_none
  have habove := freeRef?_some.mpr hs.free_new
  have hfunction := hobject.addObject (o := ⟨.native (.method .functionPrototype "")
    h.realms.size, some h.objects.size, true, []⟩) ⟨trivial, habove, cleanProps_nil⟩
  have harray := hfunction.addArray hs.free_new freeItems_nil
  have hstring := harray.addObject (o := ⟨.string [], some h.objects.size, true, []⟩)
    ⟨trivial, habove, cleanProps_nil⟩
  have hnumber := hstring.addObject (o := ⟨.number 0, some h.objects.size, true, []⟩)
    ⟨trivial, habove, cleanProps_nil⟩
  have hbool := hnumber.addObject (o := ⟨.boolean false, some h.objects.size, true, []⟩)
    ⟨trivial, habove, cleanProps_nil⟩
  have hbase := hbool.addPlain habove
  unfold Heap.addProtos
  extract_lets
  dsimp only
  generalize hfold : List.foldl _ _ _ = made
  have herrors : F.Sealed n made.2 := by
    rw [← hfold]
    refine List.foldlRecOn (motive := fun p : List (ErrorKind × Ref) × Heap => F.Sealed n p.2)
      _ _ hbase fun p hp kind _ => ?_
    split
    · exact hp
    · exact hp.addPlain (freeRef?_some.mpr hbool.free_new)
  have hglobal := herrors.addObject (o := ⟨.tagged "global", some h.objects.size, true, []⟩)
    ⟨trivial, habove, cleanProps_nil⟩
  have houter := hglobal.addScope
    (s := { (default : Scope) with object := some made.2.objects.size })
    { cleanScope_default with object := freeRef?_some.mpr herrors.free_new }
  exact houter.addScope { cleanScope_default with
    parent := fun _ e => Option.some.inj e ▸ hglobal.freeScope_new
    receiver := freeReceiver_value.mpr herrors.free_new }

/-- The scope of a new realm's names is new. -/
theorem freeScope_addProtos (hs : F.Sealed n h) : F.FreeScope h.addProtos.1.lexical := by
  refine freeScope_of_le (Nat.le_trans hs.scopeSize ?_)
  simp [Heap.addProtos, Heap.addScope, Heap.addObject, Heap.addPlain, Heap.addArray, ErrorKind.all]

/-- A realm outside of the fence may be added. -/
theorem pushRealm (hs : F.Sealed n h) (hr : F.FreeRealm r) (hg : F.Free r.global)
    (hl : F.FreeScope r.lexical) :
    F.Sealed (h.realms.size + 1) { h with realms := h.realms.push r } := by
  have hrealms : h.realms.size ≤ (h.realms.push r).size := by simp
  have hrealm (m : RealmRef) : ({ h with realms := h.realms.push r } : Heap).realm m =
      if m = h.realms.size then r else h.realm m := by
    simp only [Heap.realm, Array.getElem?_push]
    split <;> rfl
  have hold (m : RealmRef) (hm : F.closed m) :
      ({ h with realms := h.realms.push r } : Heap).realm m = h.realm m := by
    rw [hrealm, if_neg (Nat.ne_of_lt (hs.inside m hm))]
  exact {
    hs with
    realmSize := by simp
    object := fun s hfree => (hs.object s hfree).mono hrealms
    realm := fun m => by
      rw [hrealm]
      split
      · exact hr
      · exact hs.realm m
    global := fun m hopen => by
      rw [hrealm]
      split
      · exact hg
      · exact hs.global m hopen
    lexical := fun m hopen hlt => by
      rw [hrealm]
      split
      · exact hl
      · next hne =>
        have hlt : m < h.realms.size + 1 := by simpa using hlt
        exact hs.lexical m hopen (Nat.lt_of_le_of_ne (Nat.le_of_lt_succ hlt) hne)
    inside := fun m hm => Nat.lt_of_lt_of_le (hs.inside m hm) hrealms
    shut := fun m hm => (congrArg Realm.global (hold m hm)).trans (hs.shut m hm) }

/-- A new realm is made outside of the fence, and code may run for it. -/
theorem addRealm (hs : F.Sealed n h) : F.Sealed (h.realms.size + 1) h.addRealm.2 := by
  obtain ⟨hraised, hbase⟩ := Heap.veiled_addProtos h
  have hr := freeRealm_of_above hs hraised.above
  have hg : F.Free h.addProtos.1.global :=
    free_of_size_le (Nat.le_trans hs.size hraised.above.global)
  have hb : F.Free h.addProtos.2.1 := free_of_size_le (Nat.le_trans hs.size hbase)
  have hrealms : h.addProtos.2.2.realms = h.realms :=
    Array.push_inj_left.mp hraised.realms
  have hopen : F.CleanNative (h.realms.size + 1) (.maker .function) h.realms.size :=
    ⟨fun hm => Nat.lt_irrefl _ (hs.inside _ hm), Nat.lt_succ_self _⟩
  have hpush := hs.addProtos.pushRealm hr hg hs.freeScope_addProtos
  rw [hrealms] at hpush
  exact ((((hpush.giveMethods hr).giveMakers hr hg hopen).addErrors hr hg hb).giveGlobals hr hg)

end Sealed
end LoadHook.Script.Fence
