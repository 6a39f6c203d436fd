import LoadHook.Script.BuiltIn.Array
import LoadHook.Script.BuiltIn.Function
import LoadHook.Script.BuiltIn.Json
import LoadHook.Script.BuiltIn.Maker
import LoadHook.Script.BuiltIn.Number
import LoadHook.Script.BuiltIn.Object
import LoadHook.Script.BuiltIn.Text

/-!
# Realms

A new realm has built-in objects of its own. Its global object names them, hidden from
enumeration; only the clock is shown.
-/
namespace LoadHook.Script

namespace BuiltIn

/-- The function that tells the time; time stands still in a script. -/
def clockFunctions : List BuiltIn := [⟨"now", 0, fun _ _ _ _ => return .num 0⟩]

/-- The functions of a built-in object. -/
def ofOwner : Owner → List BuiltIn
  | .global => globalFunctions
  | .object => objectFunctions
  | .objectPrototype => objectMethods ++ protoAccessors
  | .functionPrototype => functionMethods
  | .array => arrayFunctions
  | .arrayPrototype => arrayMethods
  | .string => textFunctions
  | .stringPrototype => textMethods
  | .number => numberFunctions
  | .numberPrototype => numberMethods
  | .booleanPrototype => boolMethods
  | .math => mathFunctions
  | .json => jsonFunctions
  | .errorPrototype => errorMethods
  | .performance => clockFunctions

/-- The value of a built-in function of an object. -/
def call (m : Machine) (realm : RealmRef) (owner : Owner) (name : String) (this : Value)
    (args : List Value) : Eval Value :=
  match (ofOwner owner).find? (·.name == name) with
  | some f => f.run m realm this args
  | none => return .undefined

end BuiltIn

namespace Heap

/-- Adds a built-in function of a realm. -/
def addNative (h : Heap) (realm : RealmRef) (functionProto : Ref) (n : Native) (name : String)
    (arity : Nat) : Ref × Heap :=
  h.addObject ⟨.native n realm, some functionProto, true,
    [(lengthKey, ⟨.data (.nat arity) false, false, true⟩),
     (key "name", ⟨.data (.text name) false, false, true⟩)]⟩

/-- Gives an object the functions of an owner. -/
def giveFunctions (h : Heap) (realm : RealmRef) (functionProto : Ref) (r : Ref) (owner : Owner)
    (fs : List BuiltIn) : Heap :=
  fs.foldl (fun h f =>
    let (g, h) := h.addNative realm functionProto (.method owner f.name) f.name f.arity
    h.putOwn r (key f.name) (.hidden (.obj g))) h

/-- Gives an object constants that cannot be changed. -/
def giveConstants (h : Heap) (r : Ref) (constants : List (String × Float)) : Heap :=
  constants.foldl (fun h c =>
    h.putOwn r (key c.1) ⟨.data (.num c.2) false, false, false⟩) h

/-- Adds a constructor to the global object of a realm; what it makes stands below `proto`. -/
def addMaker (h : Heap) (realm : RealmRef) (r : Realm) (maker : Maker) (name : String)
    (proto : Ref) : Ref × Heap :=
  let (f, h) := h.addNative realm r.functionProto (.maker maker) name 1
  let h := h.putOwn f (key "prototype") ⟨.data (.obj proto) false, false, false⟩
  let h := h.putOwn proto (key "constructor") (.hidden (.obj f))
  (f, h.putOwn r.global (key name) (.hidden (.obj f)))

/-- Adds an object that owns functions to the global object of a realm. -/
def addHolder (h : Heap) (realm : RealmRef) (r : Realm) (owner : Owner) (name : String)
    (kind : Kind) : Ref × Heap :=
  let (o, h) := h.addObject ⟨kind, some r.objectProto, true, []⟩
  let h := h.giveFunctions realm r.functionProto o owner (BuiltIn.ofOwner owner)
  (o, h.putOwn r.global (key name) (.hidden (.obj o)))

/-- Adds the kinds of errors to a realm. -/
def addErrors (h : Heap) (realm : RealmRef) (r : Realm) (base : Ref) : Heap :=
  let (errorMaker, h) := h.addMaker realm r (.error .error) ErrorKind.error.name base
  let h := h.giveFunctions realm r.functionProto base .errorPrototype BuiltIn.errorMethods
  r.errorProtos.foldl (fun h (kind, proto) =>
    let h := h.putOwn proto (key "name") (.hidden (.text kind.name))
    let h := h.putOwn proto (key "message") (.hidden (.text ""))
    if kind == .error then h
    else
      let (f, h) := h.addMaker realm r (.error kind) kind.name proto
      h.modifyObject f fun o => { o with proto := some errorMaker }) h

/-- Adds the objects that stand above the others of a realm. -/
def addProtos (h : Heap) : Realm × Ref × Heap :=
  let (objectProto, h) := h.addPlain none
  let above := some objectProto
  let (functionProto, h) := h.addObject
    ⟨.native (.method .functionPrototype "") h.realms.size, above, true, []⟩
  let (arrayProto, h) := h.addArray objectProto []
  let (stringProto, h) := h.addObject ⟨.string [], above, true, []⟩
  let (numberProto, h) := h.addObject ⟨.number 0, above, true, []⟩
  let (booleanProto, h) := h.addObject ⟨.boolean false, above, true, []⟩
  let (base, h) := h.addPlain above
  let (protos, h) := ErrorKind.all.foldl (fun (protos, h) kind =>
    if kind == .error then ((kind, base) :: protos, h)
    else
      let (proto, h) := h.addPlain (some base)
      ((kind, proto) :: protos, h)) (([] : List (ErrorKind × Ref)), h)
  let (global, h) := h.addObject ⟨.tagged "global", above, true, []⟩
  let (outer, h) := h.addScope { (default : Scope) with object := some global }
  let (lexical, h) := h.addScope
    { (default : Scope) with parent := some outer, receiver := .value (.obj global) }
  (⟨global, lexical, objectProto, functionProto, arrayProto, stringProto, numberProto,
    booleanProto, protos⟩, base, h)

/-- Gives the objects that stand above the others their functions. -/
def giveMethods (h : Heap) (realm : RealmRef) (r : Realm) : Heap :=
  let give (proto : Ref) (owner : Owner) (fs : List BuiltIn) (h : Heap) : Heap :=
    h.giveFunctions realm r.functionProto proto owner fs
  let h := give r.objectProto .objectPrototype BuiltIn.objectMethods h
  let (getter, h) := h.addNative realm r.functionProto
    (.method .objectPrototype "get __proto__") "get __proto__" 0
  let (setter, h) := h.addNative realm r.functionProto
    (.method .objectPrototype "set __proto__") "set __proto__" 1
  let h := h.putOwn r.objectProto (key "__proto__")
    ⟨.accessor (some getter) (some setter), false, true⟩
  let h := give r.functionProto .functionPrototype BuiltIn.functionMethods h
  let h := give r.arrayProto .arrayPrototype BuiltIn.arrayMethods h
  let h := give r.stringProto .stringPrototype BuiltIn.textMethods h
  let h := give r.numberProto .numberPrototype BuiltIn.numberMethods h
  give r.booleanProto .booleanPrototype BuiltIn.boolMethods h

/-- Gives the global object of a realm its constructors. -/
def giveMakers (h : Heap) (realm : RealmRef) (r : Realm) : Heap :=
  let (object, h) := h.addMaker realm r .object "Object" r.objectProto
  let h := h.giveFunctions realm r.functionProto object .object BuiltIn.objectFunctions
  let (_, h) := h.addMaker realm r .function "Function" r.functionProto
  let (array, h) := h.addMaker realm r .array "Array" r.arrayProto
  let h := h.giveFunctions realm r.functionProto array .array BuiltIn.arrayFunctions
  let (string, h) := h.addMaker realm r .string "String" r.stringProto
  let h := h.giveFunctions realm r.functionProto string .string BuiltIn.textFunctions
  let (number, h) := h.addMaker realm r .number "Number" r.numberProto
  let h := h.giveFunctions realm r.functionProto number .number BuiltIn.numberFunctions
  let h := h.giveConstants number BuiltIn.numberConstants
  let (_, h) := h.addMaker realm r .boolean "Boolean" r.booleanProto
  h

/-- Gives the global object of a realm the values and objects that are no constructors. -/
def giveGlobals (h : Heap) (realm : RealmRef) (r : Realm) : Heap :=
  let h := h.putOwn r.global (key "undefined") ⟨.data .undefined false, false, false⟩
  let h := h.giveConstants r.global [("NaN", Numeric.nan), ("Infinity", Numeric.infinity)]
  let h := h.putOwn r.global (key "globalThis") (.hidden (.obj r.global))
  let h := h.giveFunctions realm r.functionProto r.global .global BuiltIn.globalFunctions
  let (math, h) := h.addHolder realm r .math "Math" (.tagged "Math")
  let h := h.giveConstants math BuiltIn.mathConstants
  let (_, h) := h.addHolder realm r .json "JSON" (.tagged "JSON")
  let (clock, h) := h.addHolder realm r .performance "performance" .plain
  let h := h.modifyObject clock fun o =>
    { o with props := o.props.map fun p => (p.1, { p.2 with enumerable := true }) }
  let h := h.putOwn clock (key "timeOrigin") (.plain (.num 0))
  h.putOwn r.global (key "performance") (.plain (.obj clock))

/-- Adds a realm with new built-in objects. -/
def addRealm (h : Heap) : RealmRef × Heap :=
  let realm := h.realms.size
  let (r, base, h) := h.addProtos
  let h := { h with realms := h.realms.push r }
  let h := h.giveMethods realm r
  let h := h.giveMakers realm r
  let h := h.addErrors realm r base
  (realm, h.giveGlobals realm r)

end Heap
end LoadHook.Script
