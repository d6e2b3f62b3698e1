import Typings.Proofs.Eval.Composed

namespace Typings

namespace EvalM

variable {B : StepProperty} {m : Machine}

theorem converted_composed {α : Type} (vs : List Value) (conversion : Store → Option α) :
    Composed B (converted vs conversion) := by
  refine .read fun s => ?_
  cases conversion s with
  | some a => exact .pure a
  | none => exact .throw _

theorem textOf_composed (v : Value) : Composed B (textOf v) := converted_composed _ _

theorem numberOf_composed (v : Value) : Composed B (numberOf v) := converted_composed _ _

theorem failWith_composed {α : Type} (v : Value) (fault : String → Fault) :
    Composed B (do fail (fault (← textOf v)) : EvalM α) :=
  (textOf_composed v).bind fun _ => .fail _

section
variable (hB : ValueParts m B)
include hB

theorem addHost_composed (path : String) : Composed B (make (·.addHost path)) :=
  hB.made fun _ => .addHost path

theorem newArray_composed (items : Array Value) : Composed B (make (·.addArray items)) :=
  hB.made fun _ => .addArray items

theorem setArray_composed (r : Nat) (f : Array Value → Array Value) :
    Composed B (modify (·.setArray r f) : EvalM Unit) :=
  hB.modified fun _ => .setArray r f

theorem declare_composed (scope : Nat) (name : String) (v : Value) :
    Composed B (modify (·.declare scope name v) : EvalM Unit) :=
  hB.modified fun _ => .setBinding scope name _

theorem callValue_composed (callee receiver : Value) (args : List Value) :
    Composed B (callValue m callee receiver args) := by
  cases callee with
  | function f => exact .given (hB.call f receiver args)
  | classOf c => exact .read fun _ => .fail _
  | host r path => exact addHost_composed hB _
  | _ => exact failWith_composed _ .notFunction

theorem construct_composed (callee : Value) (args : List Value) :
    Composed B (construct m callee args) := by
  cases callee with
  | classOf c =>
    exact .given (hB.new c args)
  | host r path => exact addHost_composed hB _
  | function f =>
    refine .read fun s => ?_
    split
    · refine Composed.bind (hB.made fun _ => .addObject) fun this =>
        Composed.bind (.holding (.given (hB.call f this args)) _) fun v => ?_
      cases v with
      | _ => exact .pure _
    · exact failWith_composed _ .notConstructor
  | _ => exact failWith_composed _ .notConstructor

theorem readSlot_composed (slot : Slot) (receiver : Value) : Composed B (readSlot m slot receiver) := by
  match slot with
  | .data v => exact .pure v
  | .accessor (some getter) _ => exact (callValue_composed hB getter receiver []).holding _
  | .accessor none _ => exact .pure _

theorem rootProperty_composed (c : Nat) (key : String) : Composed B (rootProperty c key) := by
  refine .read fun s => ?_
  cases s.root c with
  | host r path => exact addHost_composed hB _
  | _ => exact .pure _

theorem sharedGet_composed (c : Nat) (key : String) (receiver : Value) :
    Composed B (sharedGet m c key receiver) := by
  unfold sharedGet
  split
  · exact .pure _
  refine .read fun s => ?_
  cases s.sharedProperty? c key with
  | some p => exact readSlot_composed hB p.slot receiver
  | none => exact rootProperty_composed hB c key

theorem staticGet_composed (c : Nat) (key : String) (receiver : Value) :
    Composed B (staticGet m c key receiver) := by
  refine .read fun s => ?_
  cases (s.classCell c).statics.get? key with
  | some p => exact readSlot_composed hB p.slot receiver
  | none =>
    dsimp only
    split
    · exact .pure _
    split
    · exact .pure _
    split
    · exact addHost_composed hB _
    cases s.staticProperty? c key with
    | some p => exact readSlot_composed hB p.slot receiver
    | none => exact rootProperty_composed hB c key

theorem method_composed (methods : List Builtin) (key : String) : Composed B (method methods key) := by
  unfold method
  cases methods.find? (·.name == key) with
  | some b => exact hB.made fun _ => .addBuiltin b
  | none => exact .pure _

theorem textProperty_composed (text key : String) : Composed B (textProperty text key) := by
  unfold textProperty
  split
  · exact .pure _
  cases indexOfKey? key with
  | some i => exact .pure _
  | none => exact method_composed hB _ key

theorem arrayProperty_composed (items : Array Value) (key : String) :
    Composed B (arrayProperty items key) := by
  unfold arrayProperty
  split
  · exact .pure _
  cases indexOfKey? key with
  | some i => exact .pure _
  | none => exact method_composed hB _ key

theorem getProperty_composed (base : Value) (key : String) : Composed B (getProperty m base key) := by
  refine .read fun s => ?_
  cases base with
  | undefined => exact .fail _
  | null => exact .fail _
  | boolean b => exact .pure _
  | number x => exact .pure _
  | string t => exact textProperty_composed hB t key
  | array r => exact arrayProperty_composed hB _ key
  | object r =>
    dsimp only
    split
    · exact readSlot_composed hB _ _
    · exact sharedGet_composed hB _ key _
    · exact .pure _
  | function r =>
    dsimp only
    split
    · exact readSlot_composed hB _ _
    split
    · exact .pure _
    split
    · exact .pure _
    · exact .pure _
  | classOf c => exact staticGet_composed hB c key _
  | host r path => exact addHost_composed hB _

omit hB in
theorem denseLength_composed (n : Nat) : Composed B (denseLength n) := by
  unfold denseLength
  split
  · exact .pure n
  · exact .fail _

omit hB in
theorem lengthOf_composed (r : Nat) (v : Value) : Composed B (lengthOf r v) := by
  refine .read fun s => ?_
  split
  · exact .throw _
  · exact numberOf_composed v

theorem setElement_composed (r : Nat) (key : String) (v : Value) : Composed B (setElement r key v) := by
  unfold setElement
  split
  · refine (lengthOf_composed r v).bind fun x => ?_
    dsimp only
    split
    · exact (denseLength_composed _).bind fun n => setArray_composed hB r _
    · exact Composed.bind (.fail _) fun _ => (denseLength_composed _).bind fun n => setArray_composed hB r _
  · split
    · split
      · exact (denseLength_composed _).discard.bind fun _ => setArray_composed hB r _
      · exact .pure _
    · exact .pure _

theorem callSetter_composed (setter base v : Value) : Composed B (callSetter m setter base v) :=
  ((callValue_composed hB setter base [v]).holding _).discard

theorem writeThrough_composed (setter : Option Value) (base : Value) (key : String) (v : Value) :
    Composed B (writeThrough m setter base key v) := by
  cases setter with
  | some f => exact callSetter_composed hB f base v
  | none => exact .fail _

theorem setProperty_composed (base : Value) (key : String) (v : Value) :
    Composed B (setProperty m base key v) := by
  refine .get fun s => ?_
  cases base with
  | undefined => exact ⟨_, .fail _, rfl⟩
  | null => exact ⟨_, .fail _, rfl⟩
  | object r =>
    have hwrite := hB.modified fun _ => .setObject r (·.insert key (.data v))
    match hfound : ((s.object r).props.get? key <|> do
        s.sharedProperty? (← (s.object r).class?) key) with
    | some ⟨.accessor _ setter, _⟩ =>
      refine ⟨_, writeThrough_composed hB setter (.object r) key v, ?_⟩
      simp only [hfound]
    | some ⟨.data _, _⟩ | none =>
      refine ⟨_, hwrite, ?_⟩
      simp only [hfound]
      rfl
  | array r => exact ⟨_, setElement_composed hB r key v, rfl⟩
  | function r => exact ⟨_, hB.modified fun _ => .setFunction r (·.insert key (.data v)), rfl⟩
  | classOf c =>
    have hwrite := hB.modified fun _ => .setStatics c (·.insert key (.data v))
    match hfound : s.staticProperty? c key with
    | some ⟨.accessor _ (some setter), _⟩ =>
      refine ⟨_, callSetter_composed hB setter (.classOf c) v, ?_⟩
      simp only [hfound]
    | some ⟨.accessor _ none, _⟩ | some ⟨.data _, _⟩ | none =>
      refine ⟨_, hwrite, ?_⟩
      simp only [hfound]
      rfl
  | _ => exact ⟨_, .pure _, rfl⟩

omit hB in
theorem hasProperty_composed (base : Value) (key : String) : Composed B (hasProperty base key) := by
  refine .read fun s => ?_
  cases base with
  | object r => exact .pure _
  | array r => exact .pure _
  | classOf c => exact .pure _
  | function f => exact .pure _
  | host r path => exact .pure _
  | _ => exact .fail _

theorem deleteProperty_composed (base : Value) (key : String) :
    Composed B (deleteProperty base key) := by
  cases base with
  | object r => exact hB.modified fun _ => .setObject r (·.erase key)
  | classOf c => exact hB.modified fun _ => .setStatics c (·.erase key)
  | array r =>
    unfold deleteProperty
    dsimp only
    cases indexOfKey? key with
    | some i => exact setArray_composed hB r (·.modify i fun _ => .undefined)
    | none => exact .pure _
  | _ => exact .pure _

end

theorem unary_composed (op : UnaryOp) (v : Value) : Composed B (unary op v) := by
  cases op with
  | negate => exact (numberOf_composed v).bind fun _ => .pure _
  | plus => exact (numberOf_composed v).bind fun _ => .pure _
  | bitNot => exact (numberOf_composed v).bind fun _ => .pure _
  | _ => exact .pure _

theorem isInstance_composed (v target : Value) : Composed B (isInstance v target) := by
  refine .read fun s => ?_
  cases target with
  | classOf c =>
    cases v with
    | _ => exact .pure _
  | function f => exact .pure _
  | host r path => exact .pure _
  | _ => exact failWith_composed _ .noInstancesOf

theorem arithmetic_composed (a b : Value) (f : Float → Float → Value) : Composed B (arithmetic a b f) :=
  (numberOf_composed a).bind fun _ => (numberOf_composed b).bind fun _ => .pure _

theorem equality_composed (a b : Value) (test : Bool → Bool) : Composed B (equality a b test) :=
  (converted_composed _ _).bind fun _ => .pure _

theorem ordered_composed (a b : Value) (test : Ordering → Bool) : Composed B (ordered a b test) :=
  (converted_composed _ _).bind fun _ => .pure _

theorem binary_composed (op : BinaryOp) (a b : Value) : Composed B (binary op a b) := by
  cases op with
  | add =>
    unfold binary
    dsimp only
    split
    · exact arithmetic_composed a b _
    · exact (textOf_composed a).bind fun _ => (textOf_composed b).bind fun _ => .pure _
  | equal => exact equality_composed a b id
  | notEqual => exact equality_composed a b (!·)
  | strictEqual => exact .pure _
  | strictNotEqual => exact .pure _
  | less => exact ordered_composed a b (·.isLT)
  | lessEqual => exact ordered_composed a b (·.isLE)
  | greater => exact ordered_composed a b (·.isGT)
  | greaterEqual => exact ordered_composed a b (·.isGE)
  | instanceOf => exact (isInstance_composed a b).bind fun _ => .pure _
  | isIn => exact (textOf_composed a).bind fun key => (hasProperty_composed b key).bind fun _ => .pure _
  | _ => exact arithmetic_composed a b _

theorem receiverText_composed (v : Value) : Composed B (receiverText v) := by
  cases v with
  | string t => exact .pure t
  | _ => exact failWith_composed _ .notString

theorem receiverArray_composed (v : Value) : Composed B (receiverArray v) := by
  cases v with
  | array r => exact .pure r
  | _ => exact failWith_composed _ .notArray

theorem position_composed (v : Value) (len default : Nat) : Composed B (position v len default) := by
  unfold position
  split
  · exact .pure _
  · exact (numberOf_composed v).bind fun _ => .pure _

theorem slice_composed {α : Type} (items : List α) (args : List Value) : Composed B (slice items args) :=
  (position_composed _ _ _).bind fun _ => (position_composed _ _ _).bind fun _ => .pure _

section
variable (hB : ValueParts m B)
include hB

theorem eachItem_composed (callback array : Value) (pick : Value → Value → Option Value) (i : Nat)
    (found items : List Value) : Composed B (eachItem m callback array pick i found items) := by
  induction items generalizing i found with
  | nil => exact .pure found
  | cons item rest ih =>
    exact (((callValue_composed hB callback _ _).holding _).holding _).bind fun _ => ih _ _

theorem visit_composed (this : Value) (args : List Value) (pick : Value → Value → Option Value) :
    Composed B (visit m this args pick) := by
  refine (receiverArray_composed this).bind fun r => .read fun s => ?_
  have hrest := (eachItem_composed hB (argument args 0) this pick 0 []
    (s.array r).toList).bind fun found => .pure found.reverse
  dsimp only
  split
  · exact hrest
  · exact (textOf_composed _).bind fun _ => Composed.bind (.fail _) fun _ => hrest

omit hB in
theorem textBuiltin_composed (this : Value) (args : List Value) (f : String → String → Value) :
    Composed B (do
      let text ← receiverText this
      let other ← textOf (argument args 0)
      return f text other : EvalM Value) :=
  (receiverText_composed this).bind fun _ => (textOf_composed _).bind fun _ => .pure _

theorem runBuiltin_composed (b : Builtin) (this : Value) (args : List Value) :
    Composed B (runBuiltin m b this args) := by
  cases b with
  | parseInt =>
    refine (textOf_composed _).bind fun text => ?_
    dsimp only
    split
    · exact .pure _
    · exact (numberOf_composed _).bind fun _ => .pure _
  | parseFloat => exact (textOf_composed _).bind fun _ => .pure _
  | isNaN => exact (numberOf_composed _).bind fun _ => .pure _
  | charAt => exact (receiverText_composed this).bind fun _ => (numberOf_composed _).bind fun _ => .pure _
  | textIndexOf => exact textBuiltin_composed this args _
  | textIncludes => exact textBuiltin_composed this args _
  | startsWith => exact textBuiltin_composed this args _
  | endsWith => exact textBuiltin_composed this args _
  | textSlice =>
    exact (receiverText_composed this).bind fun _ => (slice_composed _ args).bind fun _ => .pure _
  | toUpperCase => exact (receiverText_composed this).bind fun _ => .pure _
  | toLowerCase => exact (receiverText_composed this).bind fun _ => .pure _
  | trim => exact (receiverText_composed this).bind fun _ => .pure _
  | toText => exact (receiverText_composed this).bind fun _ => .pure _
  | push =>
    exact (receiverArray_composed this).bind fun r =>
      (hB.modified fun _ => .extend r args.toArray).bind fun _ => .read fun _ => .pure _
  | pop =>
    exact (receiverArray_composed this).bind fun r => .read fun _ =>
      (setArray_composed hB r _).bind fun _ => .pure _
  | arrayIndexOf => exact (receiverArray_composed this).bind fun _ => .read fun _ => .pure _
  | arrayIncludes => exact (receiverArray_composed this).bind fun _ => .read fun _ => .pure _
  | join =>
    refine (receiverArray_composed this).bind fun r => ?_
    have htexts : ∀ separator : String, Composed B (do
        let texts ← ((← get).array r).toList.mapM fun v =>
          if v.isNullish then pure "" else textOf v
        return .string (separator.intercalate texts) : EvalM Value) := by
      refine fun separator => .read fun s => Composed.bind (.mapM (fun v => ?_) _) fun _ => .pure _
      split
      · exact .pure _
      · exact textOf_composed v
    dsimp only
    split
    · exact htexts ","
    · exact (textOf_composed _).bind htexts
  | arraySlice =>
    exact (receiverArray_composed this).bind fun r => .read fun _ => (slice_composed _ args).bind fun _ =>
      newArray_composed hB _
  | concat => exact (receiverArray_composed this).bind fun r => .read fun _ =>
      (hB.made fun _ => .gather _)
  | map => exact (visit_composed hB this args _).bind fun _ => newArray_composed hB _
  | filter => exact (visit_composed hB this args _).bind fun _ => newArray_composed hB _
  | forEach => exact (visit_composed hB this args _).discard.bind fun _ => .pure _

end

theorem lookup_composed (scope : Nat) (name : String) : Composed B (lookup scope name) := by
  refine .read fun s => ?_
  cases s.search? scope name with
  | some found => exact .pure found
  | none => exact .throw _

theorem nameValue_composed (scope : Nat) (name : String) : Composed B (nameValue scope name) := by
  refine (lookup_composed scope name).bind fun found => ?_
  cases found with
  | some v => exact .pure v
  | none => exact .fail _

theorem assignName_composed (hB : ValueParts m B) (scope : Nat) (name : String) (v : Value) :
    Composed B (assignName scope name v) := by
  refine .read fun s => ?_
  cases s.assignmentScope scope name with
  | ok r => exact declare_composed hB r name v
  | error e => exact .fail e

theorem receiver_composed (scope : Nat) : Composed B (receiver scope) := by
  refine .read fun s => ?_
  cases s.frameOf? scope with
  | none => exact .pure _
  | some f =>
    dsimp only
    cases (s.frame f).receiver with
    | some v => exact .pure v
    | none => exact .fail _

theorem spreadItems_composed (v : Value) : Composed B (spreadItems v) := by
  cases v with
  | array r => exact .read fun _ => .pure _
  | string t => exact .pure _
  | _ => exact failWith_composed _ .notIterable

theorem setOwn_composed (hB : ValueParts m B) (object : Value) (f : PropertyMap → PropertyMap) :
    Composed B (setOwn object f) := by
  cases object with
  | object r => exact hB.modified fun _ => .setObject r f
  | _ => exact .pure _

theorem checkSuperclass_composed (v : Value) : Composed B (checkSuperclass v) := by
  cases v with
  | classOf c => exact .pure _
  | host r path => exact .pure _
  | null => exact .pure _
  | function f =>
    refine .read fun s => ?_
    split
    · exact failWith_composed _ .invalidSuperclass
    · exact .pure _
  | _ => exact failWith_composed _ .invalidSuperclass

section
variable {x left right test consequent alternate callee : EvalM Link}

theorem valueOf_composed (hx : Composed B x) : Composed B (valueOf x) := hx.bind fun _ => .pure _

theorem plain_composed {x : EvalM Value} (hx : Composed B x) : Composed B (do return plain (← x)) :=
  hx.bind fun _ => .pure _

theorem keyOf_composed (hx : Composed B x) : Composed B (do textOf (← valueOf x)) :=
  (valueOf_composed hx).bind fun v => textOf_composed v

theorem operatorLink_composed (hx : Composed B x) (op : UnaryOp) : Composed B (operatorLink op x) :=
  (valueOf_composed hx).bind fun v => plain_composed (unary_composed op v)

theorem typeofLink_composed (hx : Composed B x) (scope : Nat) (name? : Option String) :
    Composed B (typeofLink scope name? x) := by
  cases name? with
  | none => exact operatorLink_composed hx .typeof
  | some name =>
    refine (lookup_composed scope name).bind fun found => ?_
    dsimp only
    split
    · exact .pure _
    · exact operatorLink_composed hx .typeof

theorem binaryLink_composed (hl : Composed B left) (hr : Composed B right) (op : BinaryOp) :
    Composed B (binaryLink op left right) :=
  (valueOf_composed hl).bind fun a => ((valueOf_composed hr).holding _).bind fun b =>
    plain_composed (binary_composed op a b)

theorem logicalLink_composed (hl : Composed B left) (hr : Composed B right) (op : LogicalOp) :
    Composed B (logicalLink op left right) := by
  refine (valueOf_composed hl).bind fun a => ?_
  split
  · exact .pure _
  · exact plain_composed ((valueOf_composed hr).holding _)

theorem conditionalLink_composed (ht : Composed B test) (hc : Composed B consequent)
    (ha : Composed B alternate) : Composed B (conditionalLink test consequent alternate) := by
  refine (valueOf_composed ht).bind fun v => ?_
  split
  · exact plain_composed (valueOf_composed hc)
  · exact plain_composed (valueOf_composed ha)

variable (hB : ValueParts m B)
include hB

theorem superGet_composed (scope : Nat) (key : String) : Composed B (superGet m scope key) := by
  refine .read fun s => ?_
  cases (s.frameOf? scope).bind fun f => s.homeOf? (s.frame f) with
  | none => exact .fail _
  | some home =>
    refine (receiver_composed scope).bind fun this => ?_
    cases (s.classCell home).superclass with
    | host r path => exact (addHost_composed hB _).bind fun _ => .pure _
    | classOf parent =>
      refine Composed.holding ?_ _
      cases this with
      | classOf c => exact (staticGet_composed hB parent key _).bind fun _ => .pure _
      | _ => exact (sharedGet_composed hB parent key _).bind fun _ => .pure _
    | _ => exact .pure _

theorem readPlace_composed (scope : Nat) (place : Place) : Composed B (readPlace m scope place) := by
  cases place with
  | name n => exact nameValue_composed scope n
  | property base key => exact getProperty_composed hB base key
  | superProperty key => exact valueOf_composed (superGet_composed hB scope key)

theorem writePlace_composed (scope : Nat) (v : Value) (place : Place) :
    Composed B (writePlace m scope v place) := by
  refine Composed.holding ?_ _
  cases place with
  | name n => exact assignName_composed hB scope n v
  | property base key => exact setProperty_composed hB base key v
  | superProperty key =>
    exact (receiver_composed scope).bind fun this => setProperty_composed hB this key v

theorem copyProperties_composed (object source : Value) (keys : List String) :
    Composed B (copyProperties m object source keys) := by
  induction keys with
  | nil => exact .pure _
  | cons key keys ih =>
    exact (getProperty_composed hB source key).bind fun v => (setOwn_composed hB object _).bind fun _ => ih

theorem callLink_composed {args : EvalM (List Value)} (hargs : Composed B args) (label : String)
    (optional : Bool) (link : Link) : Composed B (callLink m label optional args link) := by
  cases link with
  | skipped => exact .pure _
  | found receiver callee =>
    have hcall := (hargs.holding [receiver, callee]).bind fun args =>
      plain_composed (callValue_composed hB callee receiver args)
    unfold callLink
    dsimp only
    split
    · exact .pure _
    split
    · exact hcall
    · exact Composed.bind (.fail _) fun _ => hcall

theorem memberLink_composed {key : EvalM String} (hkey : Composed B key) (optional : Bool)
    (link : Link) : Composed B (memberLink m optional key link) := by
  cases link with
  | skipped => exact .pure _
  | found receiver base =>
    unfold memberLink
    dsimp only
    split
    · exact .pure _
    · exact (hkey.holding _).bind fun key => (getProperty_composed hB base key).bind fun _ => .pure _

theorem newLink_composed {args : EvalM (List Value)} (hc : Composed B callee) (ha : Composed B args)
    (label : String) : Composed B (newLink m label callee args) :=
  (valueOf_composed hc).bind fun callee => (ha.holding _).bind fun args =>
    plain_composed ((construct_composed hB callee args).relabel label)

theorem updateLink_composed (scope : Nat) (op : UpdateOp) (before : Bool) (place : Place) :
    Composed B (updateLink m scope op before place) :=
  (readPlace_composed hB scope place).bind fun v => (numberOf_composed v).bind fun _ =>
    (writePlace_composed hB scope _ place).bind fun _ => .pure _

theorem writeLink_composed (scope : Nat) (place : Place) (v : Value) :
    Composed B (writeLink m scope place v) :=
  (writePlace_composed hB scope v place).bind fun _ => .pure _

theorem assignLink_composed {value : Option String → EvalM Link}
    (hvalue : ∀ given, Composed B (value given)) (scope : Nat) (op : AssignOp) (given : Option String)
    (place : Place) : Composed B (assignLink m scope op given value place) := by
  have hheld : ∀ vs given, Composed B (holding vs (valueOf (value given))) :=
    fun vs given => (valueOf_composed (hvalue given)).holding vs
  cases op with
  | assign => exact (hheld _ _).bind fun v => writeLink_composed hB scope place v
  | compound op =>
    exact (readPlace_composed hB scope place).bind fun current => (hheld _ _).bind fun operand =>
      (binary_composed op current operand).bind fun v => writeLink_composed hB scope place v
  | logical op =>
    refine (readPlace_composed hB scope place).bind fun current => ?_
    split
    · exact .pure _
    · exact (hheld _ _).bind fun v => writeLink_composed hB scope place v

end

end EvalM

end Typings
