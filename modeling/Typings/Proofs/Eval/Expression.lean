import Typings.Proofs.Eval.Operation

namespace Typings

def Link.Known (lax : Prop) (k : Nat) : Link → Prop
  | .skipped => True
  | .found receiver v => receiver.Known lax k ∧ v.Known lax k

def Place.Known (lax : Prop) (k : Nat) : Place → Prop
  | .property base _ => base.Known lax k
  | .name _ | .superProperty _ => True

theorem Place.Known.later {lax : Prop} {s s' : Store} {place : Place}
    (h : place.Known lax s.classes.size)
    (he : s.Evolves lax s') : place.Known lax s'.classes.size := by
  cases place with
  | property base key => exact Store.Knows.later h he
  | _ => trivial

theorem Link.Known.value {lax : Prop} {link : Link} {k : Nat} (h : link.Known lax k) :
    link.value.Known lax k := by
  cases link with
  | skipped => trivial
  | found receiver v => exact h.2

namespace EvalM

variable {lax : Prop} {n : Nat} {m : Machine} {s s' : Store} {v base object : Value}
variable {args : List Value} {key name : String} {c r scope : Nat} {given : Option String}

theorem valueOf_behaves {x : EvalM Link} (hs : s.Ready lax)
    (hx : Behaves lax n s (Link.Known lax) (x s)) :
    Behaves lax n s (Value.Known lax) (valueOf x s) :=
  hx.bind hs fun _ _ _ _ h => .pure h.value

theorem binding?_known (hs : s.Sound lax) {b : Binding} (h : s.binding? r name = some b) :
    b.All (s.Knows lax) := by
  obtain ⟨r', _, hb⟩ := Option.bind_eq_some_iff.1 h
  exact hs.values.scopes r' name b hb

theorem follow_known (hs : s.Sound lax) {hops : Nat} (h : s.follow hops r name = some (some v)) :
    s.Knows lax v := by
  fun_induction Store.follow s hops r name with
  | case1 hops r name v' hb =>
    cases h
    exact binding?_known hs hb
  | case2 hops r name v' hb =>
    cases h
    exact binding?_known hs hb
  | case3 r name target name' hb => cases h
  | case4 r name target name' hops hb ih => exact ih h
  | case5 hops r name hb => cases h

theorem lookup_behaves (hs : s.Ready lax) (scope : Nat) (name : String) :
    Behaves lax n s (fun k found => ∀ v ∈ found, v.Known lax k) (lookup scope name s) := by
  refine .get ?_
  cases h : s.search? scope name with
  | some found =>
    refine .pure fun v hv => ?_
    cases hv
    exact follow_known hs.sound h
  | none =>
    refine .still fun henough => ?_
    have hsome := Store.search?_isSome henough.imports henough.acyclic scope name
    rw [h] at hsome
    cases hsome

theorem nameValue_behaves (hs : s.Ready lax) (scope : Nat) (name : String) :
    Behaves lax n s (Value.Known lax) (nameValue scope name s) := by
  refine (lookup_behaves hs scope name).bind hs fun found s₁ _ _ hfound => ?_
  cases found with
  | some v => exact .pure (hfound v rfl)
  | none => exact .fail _

theorem assignName_behaves (hv : s.Knows lax v) (scope : Nat) (name : String) :
    Behaves lax n s (fun _ _ => True) (assignName scope name v s) := by
  refine .get ?_
  cases s.assignmentScope scope name with
  | ok r => exact .change (.declare r name v hv) trivial rfl rfl
  | error f => exact .fail f

theorem receiver_behaves (hs : s.Ready lax) (scope : Nat) :
    Behaves lax n s (Value.Known lax) (receiver scope s) := by
  refine .get ?_
  cases s.frameOf? scope with
  | none => exact .pure trivial
  | some f =>
    dsimp only
    cases hr : (s.frame f).receiver with
    | some v => exact .pure ((hs.sound.values.frames f).1 v hr)
    | none => exact .fail _

theorem superGet_behaves (hm : m.Sound lax n) (hs : s.Ready lax) (scope : Nat) (key : String) :
    Behaves lax n s (Link.Known lax) (superGet m scope key s) := by
  refine .get ?_
  cases (s.frameOf? scope).bind fun f => s.homeOf? (s.frame f) with
  | none => exact .fail _
  | some home =>
    refine (receiver_behaves hs scope).bind hs fun this s₁ h₁ hs₁ (hthis : s₁.Knows lax this) => ?_
    have hparent : s.Knows lax (s.classCell home).superclass := (hs.sound.values.classes home).1
    cases hp : (s.classCell home).superclass with
    | host r path =>
      exact (addHost_behaves _).bind hs₁ fun _ _ h₂ _ hv => .pure ⟨hthis.later h₂, hv⟩
    | classOf parent =>
      rw [hp] at hparent
      refine .holding hs₁ fun s₂ h₂ hs₂ => ?_
      have hthis : s₂.Knows lax this := hthis.later h₂
      have hshared : Behaves lax n s₂ (Value.Known lax) (sharedGet m parent key this s₂) :=
        sharedGet_behaves hm hs₂ (hparent.later (h₁.trans h₂)) hthis
      have hfound : ∀ {x : EvalM Value}, Behaves lax n s₂ (Value.Known lax) (x s₂) →
          Behaves lax n s₂ (Link.Known lax) ((do return .found this (← x) : EvalM Link) s₂) :=
        fun hx => hx.bind hs₂ fun _ _ h₃ _ hv => .pure ⟨hthis.later h₃, hv⟩
      cases this with
      | classOf c => exact hfound (staticGet_behaves hm hs₂ hthis)
      | _ => exact hfound hshared
    | _ => exact .pure ⟨hthis, trivial⟩

theorem readPlace_behaves (hm : m.Sound lax n) (hs : s.Ready lax) {place : Place}
    (hp : place.Known lax s.classes.size) (scope : Nat) :
    Behaves lax n s (Value.Known lax) (readPlace m scope place s) := by
  cases place with
  | name n => exact nameValue_behaves hs scope n
  | property base key => exact getProperty_behaves hm hs hp
  | superProperty key => exact valueOf_behaves hs (superGet_behaves hm hs scope key)

theorem writePlace_behaves (hm : m.Sound lax n) (hs : s.Ready lax) {place : Place}
    (hp : place.Known lax s.classes.size) (hv : s.Knows lax v) (scope : Nat) :
    Behaves lax n s (fun _ _ => True) (writePlace m scope v place s) := by
  refine .holding hs fun s₁ h₁ hs₁ => ?_
  have hv : s₁.Knows lax v := hv.later h₁
  cases place with
  | name n => exact assignName_behaves hv scope n
  | property base key => exact setProperty_behaves hm hs₁ (Store.Knows.later hp h₁) hv key
  | superProperty key =>
    exact (receiver_behaves hs₁ scope).bind hs₁ fun _ _ h₂ hs₂ hthis =>
      setProperty_behaves hm hs₂ hthis (hv.later h₂) key

theorem newFunction_behaves (body : FunctionDef) (scope : Nat) (given : Option String) :
    Behaves lax n s (Value.Known lax) (newFunction body scope given s) :=
  .change (.addFunction _ .empty) trivial rfl rfl

theorem spreadItems_behaves (hs : s.Ready lax) (v : Value) :
    Behaves lax n s (Value.AllKnown lax) (spreadItems v s) := by
  cases v with
  | array r => exact .get (.pure (array_known hs.sound r))
  | string t =>
    refine .pure fun v hv => ?_
    obtain ⟨c, _, rfl⟩ := List.mem_map.1 hv
    trivial
  | _ => exact failWith_behaves hs _ .notIterable

theorem setOwn_behaves (hs : s.Ready lax) (object : Value) {f : PropertyMap → PropertyMap}
    (hf : ∀ {props : PropertyMap}, props.All (s.Knows lax) → (f props).All (s.Knows lax)) :
    Behaves lax n s (fun _ _ => True) (setOwn object f s) := by
  cases object with
  | object r =>
    have ho := hs.sound.values.objects r
    exact .change (.setObject r _ ⟨ho.1, hf ho.2⟩) trivial rfl rfl
  | _ => exact .pure trivial

theorem setData_behaves (hs : s.Ready lax) (object : Value) (key : String) (hv : s.Knows lax v) :
    Behaves lax n s (fun _ _ => True) (setOwn object (·.insert key (.data v)) s) :=
  setOwn_behaves hs object fun h => h.insert (p := .data v) hv key

theorem copyProperties_behaves (hm : m.Sound lax n) (hs : s.Ready lax) (object : Value)
    {source : Value} (hsource : s.Knows lax source) (keys : List String) :
    Behaves lax n s (fun _ _ => True) (copyProperties m object source keys s) := by
  induction keys generalizing s with
  | nil => exact .pure trivial
  | cons key keys ih =>
    refine (getProperty_behaves hm hs hsource).bind hs fun v s₁ h₁ hs₁ hv => ?_
    refine (setData_behaves hs₁ object key hv).bind hs₁ fun _ s₂ h₂ hs₂ _ => ?_
    exact ih hs₂ (hsource.later (h₁.trans h₂))

theorem plain_behaves {x : EvalM Value} (hs : s.Ready lax)
    (hx : Behaves lax n s (Value.Known lax) (x s)) :
    Behaves lax n s (Link.Known lax) ((do return plain (← x) : EvalM Link) s) :=
  hx.bind hs fun _ _ _ _ hv => .pure ⟨trivial, hv⟩

theorem callLink_behaves (hm : m.Sound lax n) (hs : s.Ready lax) (label : String) (optional : Bool)
    {args : EvalM (List Value)} (hargs : Safe lax n (Value.AllKnown lax) args) {link : Link}
    (hl : link.Known lax s.classes.size) :
    Behaves lax n s (Link.Known lax) (callLink m label optional args link s) := by
  cases link with
  | skipped => exact .pure trivial
  | found receiver callee =>
    have hreceiver : s.Knows lax receiver := hl.1
    unfold callLink
    dsimp only
    split
    · exact .pure trivial
    split
    · refine (hargs.holding _ hs).bind hs fun args s₂ h₂ hs₂ ha => ?_
      exact plain_behaves hs₂ (callValue_behaves hm hs₂ (hreceiver.later h₂) ha)
    · exact .fail_bind ..

theorem memberLink_behaves (hm : m.Sound lax n) (hs : s.Ready lax) (optional : Bool)
    {key : EvalM String}
    (hkey : Safe lax n (fun _ _ => True) key) {link : Link} (hl : link.Known lax s.classes.size) :
    Behaves lax n s (Link.Known lax) (memberLink m optional key link s) := by
  cases link with
  | skipped => exact .pure trivial
  | found receiver base =>
    have hbase : s.Knows lax base := hl.2
    unfold memberLink
    dsimp only
    split
    · exact .pure trivial
    · refine (hkey.holding _ hs).bind hs fun key s₂ h₂ hs₂ _ => ?_
      refine (getProperty_behaves hm hs₂ (hbase.later h₂)).bind hs₂ fun v s₃ h₃ _ hv => ?_
      exact .pure ⟨hbase.later (h₂.trans h₃), hv⟩

theorem relabel_behaves {α : Type} {Q : Nat → α → Prop} {x : EvalM α} (label : String)
    (hx : Behaves lax n s Q (x s)) : Behaves lax n s Q (relabel label x s) := by
  unfold relabel
  rcases hout : x s with ⟨stop | a, s'⟩
  · rw [hout] at hx
    rw [tryCatch_error hout]
    cases stop with
    | fault f =>
      dsimp only
      split
      · exact ⟨hx.evolves, hx.depth, hx.deepest, trivial⟩
      · exact ⟨hx.evolves, hx.depth, hx.deepest, trivial⟩
    | _ => exact hx
  · rw [hout] at hx
    rw [tryCatch_ok hout]
    exact hx

theorem checkSuperclass_behaves (hs : s.Ready lax) (hv : s.Knows lax v) :
    Behaves lax n s (Value.Known lax) (checkSuperclass v s) := by
  cases v with
  | classOf c => exact .pure hv
  | host r path => exact .pure trivial
  | null => exact .pure trivial
  | function f =>
    refine .get ?_
    split
    · exact failWith_behaves hs _ .invalidSuperclass
    · exact .pure trivial
  | _ => exact failWith_behaves hs _ .invalidSuperclass

theorem putMember_behaves (hs : s.Ready lax) (c : Nat) (isStatic : Bool)
    {f : PropertyMap → PropertyMap}
    (hf : ∀ {props : PropertyMap}, props.All (s.Knows lax) → (f props).All (s.Knows lax)) :
    Behaves lax n s (fun _ _ => True)
      ((modify (·.setClass c fun cell =>
        if isStatic then { cell with statics := f cell.statics }
        else { cell with shared := f cell.shared }) : EvalM Unit) s) := by
  obtain ⟨hsuper, hshared, hstatics⟩ := hs.sound.values.classes c
  refine .change (.setClass c _ ?_ ?_) trivial rfl rfl
  · split
    · exact ⟨hsuper, hshared, hf hstatics⟩
    · exact ⟨hsuper, hf hshared, hstatics⟩
  · split <;> rfl

theorem addMember_behaves (hs : s.Ready lax) (c env : Nat) (member : ClassMember) :
    Behaves lax n s (fun _ _ => True) (addMember c env member s) := by
  have hmethod : ∀ body : FunctionDef, Behaves lax n s (Value.Known lax)
      (make (·.addFunction { name := member.name, code := .script body env (some c) }) s) :=
    fun body => .change (.addFunction _ .empty) trivial rfl rfl
  unfold addMember
  cases member.kind with
  | method body =>
    refine (hmethod body).bind hs fun f s₁ _ hs₁ (hf : s₁.Knows lax f) => ?_
    exact putMember_behaves hs₁ c member.isStatic fun h => h.insert (p := .hidden f) hf member.name
  | getter body =>
    refine (hmethod body).bind hs fun f s₁ _ hs₁ (hf : s₁.Knows lax f) => ?_
    refine putMember_behaves hs₁ c member.isStatic fun h =>
      h.insertAccessor ?_ (by simp) member.name false
    rintro v ⟨⟩
    exact hf
  | setter body =>
    refine (hmethod body).bind hs fun f s₁ _ hs₁ (hf : s₁.Knows lax f) => ?_
    refine putMember_behaves hs₁ c member.isStatic fun h =>
      h.insertAccessor (by simp) ?_ member.name false
    rintro v ⟨⟩
    exact hf
  | field init => exact .pure trivial

theorem newClass_behaves (hs : s.Ready lax) (body : ClassDef) {superclass : Value}
    (hsuper : s.Knows lax superclass) (scope : Nat) (given : Option String) :
    Behaves lax n s (fun k out => (Value.classOf out.1).Known lax k)
      (newClass body superclass scope given s) := by
  refine .get ?_
  refine Behaves.bind (P := fun _ _ => True) hs (.change (.addScope _ rfl) trivial rfl rfl)
    fun env s₁ h₁ hs₁ _ => ?_
  refine Behaves.bind (P := fun k c => (Value.classOf c).Known lax k) hs₁
    (.change (.addClass _ ⟨hsuper.later h₁, .empty, .empty⟩) ?_ rfl rfl)
      fun c s₂ _ hs₂ (hc : s₂.Knows lax (.classOf c)) => ?_
  · exact .inl (by simp)
  refine Behaves.bind hs₂ (.forM hs₂ fun member _ s' _ hs' => addMember_behaves hs' c env member)
    fun _ s₃ h₃ hs₃ _ => ?_
  have hc : s₃.Knows lax (.classOf c) := hc.later h₃
  dsimp only
  split
  · refine Behaves.bind (P := fun _ _ => True) hs₃
      (.change (.declareConstant env _ _ hc) trivial rfl rfl)
      fun _ s₄ h₄ _ _ => ?_
    exact .pure (hc.later h₄)
  · exact .pure hc

theorem staticScope_behaves (hs : s.Ready lax) (hc : s.Knows lax (.classOf c)) (env : Nat) :
    Behaves lax n s (fun _ _ => True) (staticScope c env s) := by
  refine Behaves.bind (P := fun _ _ => True) hs
    (.change (.addFrame _ ⟨?_, by simp⟩) trivial rfl rfl)
    fun f s₁ _ _ _ => .change (.addScope _ rfl) trivial rfl rfl
  rintro v ⟨⟩
  exact hc

section
variable {x left right test consequent alternate callee : EvalM Link}

theorem valueOf_safe (hx : Safe lax n (Link.Known lax) x) :
    Safe lax n (Value.Known lax) (valueOf x) :=
  fun _ hs => valueOf_behaves hs (hx hs)

theorem keyOf_safe (hx : Safe lax n (Link.Known lax) x) :
    Safe lax n (fun _ _ => True) (do textOf (← valueOf x)) :=
  fun _ hs => (valueOf_safe hx hs).bind hs fun v _ _ _ _ => .textOf v

theorem operatorLink_safe (hx : Safe lax n (Link.Known lax) x) (op : UnaryOp) :
    Safe lax n (Link.Known lax) (operatorLink op x) :=
  fun _ hs => (valueOf_safe hx hs).bind hs fun v _ _ hs₁ _ =>
    plain_behaves hs₁ (unary_behaves hs₁ op v)

theorem typeofLink_safe (hx : Safe lax n (Link.Known lax) x) (scope : Nat) (name? : Option String) :
    Safe lax n (Link.Known lax) (typeofLink scope name? x) := by
  intro s hs
  cases name? with
  | none => exact operatorLink_safe hx .typeof hs
  | some name =>
    refine (lookup_behaves hs scope name).bind hs fun found s₁ _ hs₁ _ => ?_
    dsimp only
    split
    · exact .pure ⟨trivial, trivial⟩
    · exact operatorLink_safe hx .typeof hs₁

theorem binaryLink_safe (hl : Safe lax n (Link.Known lax) left)
    (hr : Safe lax n (Link.Known lax) right)
    (op : BinaryOp) : Safe lax n (Link.Known lax) (binaryLink op left right) := by
  intro s hs
  refine (valueOf_safe hl hs).bind hs fun a s₁ _ hs₁ _ => ?_
  refine ((valueOf_safe hr).holding _ hs₁).bind hs₁ fun b s₃ _ hs₃ _ => ?_
  exact plain_behaves hs₃ (binary_behaves hs₃ op a b)

theorem logicalLink_safe (hl : Safe lax n (Link.Known lax) left)
    (hr : Safe lax n (Link.Known lax) right)
    (op : LogicalOp) : Safe lax n (Link.Known lax) (logicalLink op left right) := by
  intro s hs
  refine (valueOf_safe hl hs).bind hs fun a s₁ _ hs₁ ha => ?_
  split
  · exact .pure ⟨trivial, ha⟩
  · exact plain_behaves hs₁ ((valueOf_safe hr).holding _ hs₁)

theorem conditionalLink_safe (ht : Safe lax n (Link.Known lax) test)
    (hc : Safe lax n (Link.Known lax) consequent) (ha : Safe lax n (Link.Known lax) alternate) :
    Safe lax n (Link.Known lax) (conditionalLink test consequent alternate) := by
  intro s hs
  refine (valueOf_safe ht hs).bind hs fun v s₁ _ hs₁ _ => ?_
  split
  · exact plain_behaves hs₁ (valueOf_safe hc hs₁)
  · exact plain_behaves hs₁ (valueOf_safe ha hs₁)

variable (hm : m.Sound lax n)
include hm

theorem newLink_safe {args : EvalM (List Value)} (hc : Safe lax n (Link.Known lax) callee)
    (ha : Safe lax n (Value.AllKnown lax) args) (label : String) :
    Safe lax n (Link.Known lax) (newLink m label callee args) := by
  intro s hs
  refine (valueOf_safe hc hs).bind hs fun callee s₁ _ hs₁ (hc : s₁.Knows lax callee) => ?_
  refine (ha.holding _ hs₁).bind hs₁ fun args s₃ h₃ hs₃ hargs => ?_
  exact plain_behaves hs₃ (relabel_behaves label (construct_behaves hm hs₃ (hc.later h₃) hargs))

section
variable {place : Place} (hs : s.Ready lax) (hp : place.Known lax s.classes.size)
include hs hp

theorem updateLink_behaves (scope : Nat) (op : UpdateOp) (before : Bool) :
    Behaves lax n s (Link.Known lax) (updateLink m scope op before place s) := by
  refine (readPlace_behaves hm hs hp scope).bind hs fun v s₁ h₁ hs₁ _ => ?_
  refine (Behaves.numberOf v).bind hs₁ fun old s₂ h₂ hs₂ _ => ?_
  refine (writePlace_behaves hm hs₂ (hp.later (h₁.trans h₂)) ?_ scope).bind hs₂ fun _ _ _ _ _ => ?_
  · trivial
  · exact .pure ⟨trivial, trivial⟩

theorem writeLink_behaves (hv : s.Knows lax v) (scope : Nat) :
    Behaves lax n s (Link.Known lax) (writeLink m scope place v s) :=
  (writePlace_behaves hm hs hp hv scope).bind hs fun _ _ h₁ _ _ => .pure ⟨trivial, hv.later h₁⟩

theorem assignLink_behaves {value : Option String → EvalM Link}
    (hvalue : ∀ given, Safe lax n (Link.Known lax) (value given)) (scope : Nat) (op : AssignOp)
    (given : Option String) :
    Behaves lax n s (Link.Known lax) (assignLink m scope op given value place s) := by
  have hheld : ∀ vs given, Safe lax n (Value.Known lax) (holding vs (valueOf (value given))) :=
    fun vs given => (valueOf_safe (hvalue given)).holding vs
  cases op with
  | assign =>
    refine (hheld _ _ hs).bind hs fun v s₁ h₁ hs₁ hv => ?_
    exact writeLink_behaves hm hs₁ (hp.later h₁) hv scope
  | compound op =>
    refine (readPlace_behaves hm hs hp scope).bind hs fun current s₁ h₁ hs₁ _ => ?_
    refine (hheld _ _ hs₁).bind hs₁ fun operand s₂ h₂ hs₂ _ => ?_
    refine (binary_behaves hs₂ op current operand).bind hs₂ fun v s₃ h₃ hs₃ hv => ?_
    exact writeLink_behaves hm hs₃ (hp.later ((h₁.trans h₂).trans h₃)) hv scope
  | logical op =>
    refine (readPlace_behaves hm hs hp scope).bind hs fun current s₁ h₁ hs₁ hcurrent => ?_
    split
    · exact .pure ⟨trivial, hcurrent⟩
    · refine (hheld _ _ hs₁).bind hs₁ fun v s₂ h₂ hs₂ hv => ?_
      exact writeLink_behaves hm hs₂ (hp.later (h₁.trans h₂)) hv scope

end

end

section
variable {x : EvalM Link} {rest : EvalM (List Value)} (hx : Safe lax n (Link.Known lax) x)
variable (hrest : Safe lax n (Value.AllKnown lax) rest)
include hx hrest

theorem value_safe :
    Safe lax n (Value.AllKnown lax) (do
      let v ← valueOf x
      return v :: (← holding [v] rest)) := by
  intro s hs
  refine (valueOf_safe hx hs).bind hs fun v s₁ _ hs₁ (hv : s₁.Knows lax v) => ?_
  refine (hrest.holding _ hs₁).bind hs₁ fun _ _ h₃ _ hvs => ?_
  exact .pure (.cons (hv.later h₃) hvs)

theorem spread_safe :
    Safe lax n (Value.AllKnown lax) (do
      let items ← spreadItems (← valueOf x)
      return items ++ (← holding items rest)) := by
  intro s hs
  refine (valueOf_safe hx hs).bind hs fun v s₁ _ hs₁ _ => ?_
  refine (spreadItems_behaves hs₁ v).bind hs₁
    fun items s₂ _ hs₂ (hitems : s₂.KnowsAll lax items) => ?_
  refine (hrest.holding _ hs₂).bind hs₂ fun _ _ h₄ _ hvs => ?_
  exact .pure (.append (hitems.later h₄) hvs)

end

theorem accessor_behaves (hs : s.Ready lax) (object : Value) (key : String) {get set : Option Value}
    (hget : ∀ v ∈ get, s.Knows lax v) (hset : ∀ v ∈ set, s.Knows lax v) :
    Behaves lax n s (fun _ _ => True) (setOwn object (·.insertAccessor key get set true) s) :=
  setOwn_behaves hs object fun h => h.insertAccessor hget hset key true

mutual

theorem link_safe (hm : m.Sound lax n) (scope : Nat) (given : Option String) :
    ∀ e : Expr, Safe lax n (Link.Known lax) (link m scope given e)
  | .number .. | .string .. | .boolean .. | .null _ => fun s hs => by
    rw [link]
    exact .pure ⟨trivial, trivial⟩
  | .template parts _ => fun s hs => by
    rw [link]
    exact (templateText_safe hm scope parts hs).bind hs fun _ _ _ _ _ => .pure ⟨trivial, trivial⟩
  | .identifier name _ => fun s hs => by
    rw [link]
    exact plain_behaves hs (nameValue_behaves hs scope name)
  | .this _ => fun s hs => by
    rw [link]
    exact plain_behaves hs (receiver_behaves hs scope)
  | .array elements _ => fun s hs => by
    rw [link]
    refine (elementValues_safe hm scope elements hs).bind hs fun items s₁ _ hs₁ hitems => ?_
    exact plain_behaves hs₁ (gather_behaves hitems)
  | .object properties _ => fun s hs => by
    rw [link]
    refine (addObject_behaves (by simp)).bind hs
      fun object s₁ _ hs₁ (ho : s₁.Knows lax object) => ?_
    refine ((addProperties_safe hm scope object properties).holding _ hs₁).bind hs₁ ?_
    exact fun _ _ h₃ _ _ => .pure ⟨trivial, ho.later h₃⟩
  | .function body => fun s hs => by
    rw [link]
    exact plain_behaves hs (newFunction_behaves body scope given)
  | .classOf body => fun s hs => by
    rw [link]
    exact (classValue_safe hm scope given body hs).bind hs fun _ _ _ _ hc => .pure ⟨trivial, hc⟩
  | .member object key optional _ => fun s hs => by
    rw [link]
    refine (link_safe hm scope none object hs).bind hs fun l s₁ _ hs₁ hl => ?_
    exact memberLink_behaves hm hs₁ optional (fun _ _ => .pure trivial) hl
  | .index object index optional _ => fun s hs => by
    rw [link]
    refine (link_safe hm scope none object hs).bind hs fun l s₁ _ hs₁ hl => ?_
    exact memberLink_behaves hm hs₁ optional (keyOf_safe (link_safe hm scope none index)) hl
  | .call callee args optional _ => fun s hs => by
    rw [link]
    refine (link_safe hm scope none callee hs).bind hs fun l s₁ _ hs₁ hl => ?_
    exact callLink_behaves hm hs₁ _ optional (argumentValues_safe hm scope args) hl
  | .superMember key _ => fun s hs => by
    rw [link]
    exact superGet_behaves hm hs scope key
  | .new callee args _ => by
    rw [link]
    exact newLink_safe hm (link_safe hm scope none callee) (argumentValues_safe hm scope args) _
  | .superCall args _ => fun s hs => by
    rw [link]
    refine (argumentValues_safe hm scope args hs).bind hs fun args s₁ _ hs₁ ha => ?_
    exact (hm.superCall scope hs₁ ha).bind hs₁ fun _ _ _ _ _ => .pure ⟨trivial, trivial⟩
  | .unary op operand _ => by
    have hoperand := link_safe hm scope none operand
    cases op with
    | typeof =>
      rw [link]
      exact typeofLink_safe hoperand scope _
    | delete =>
      intro s hs
      rw [link]
      exact (deleteAt_safe hm scope operand hs).bind hs fun _ _ _ _ _ => .pure ⟨trivial, trivial⟩
    | _ =>
      simp only [link]
      exact operatorLink_safe hoperand _
  | .update op before target _ => fun s hs => by
    rw [link]
    refine (placeOf_safe hm scope target hs).bind hs fun place s₁ _ hs₁ hp => ?_
    exact updateLink_behaves hm hs₁ hp scope op before
  | .binary op left right _ => by
    rw [link]
    exact binaryLink_safe (link_safe hm scope none left) (link_safe hm scope none right) op
  | .logical op left right _ => by
    rw [link]
    exact logicalLink_safe (link_safe hm scope none left) (link_safe hm scope none right) op
  | .conditional test consequent alternate _ => by
    rw [link]
    exact conditionalLink_safe (link_safe hm scope none test) (link_safe hm scope none consequent)
      (link_safe hm scope none alternate)
  | .assign op target value _ => fun s hs => by
    rw [link]
    refine (placeOf_safe hm scope target hs).bind hs fun place s₁ _ hs₁ hp => ?_
    exact assignLink_behaves hm hs₁ hp (fun given => link_safe hm scope given value) scope op _
  | .sequence expressions _ => fun s hs => by
    rw [link]
    refine plain_behaves hs (lastValue_behaves hm scope hs ?_ expressions)
    trivial

theorem templateText_safe (hm : m.Sound lax n) (scope : Nat) :
    ∀ parts : List TemplateElement, Safe lax n (fun _ _ => True) (templateText m scope parts)
  | [] => fun s hs => by
    rw [templateText]
    exact .pure trivial
  | .text t :: parts => fun s hs => by
    rw [templateText]
    exact (templateText_safe hm scope parts hs).bind hs fun _ _ _ _ _ => .pure trivial
  | .value e :: parts => fun s hs => by
    rw [templateText]
    refine (valueOf_safe (link_safe hm scope none e) hs).bind hs fun v s₁ _ hs₁ _ => ?_
    refine (Behaves.textOf v).bind hs₁ fun _ s₂ _ hs₂ _ => ?_
    exact (templateText_safe hm scope parts hs₂).bind hs₂ fun _ _ _ _ _ => .pure trivial

theorem elementValues_safe (hm : m.Sound lax n) (scope : Nat) :
    ∀ elements : List ArrayElement, Safe lax n (Value.AllKnown lax) (elementValues m scope elements)
  | [] => fun s hs => by
    rw [elementValues]
    exact .pure .nil
  | .value e :: rest => fun s hs => by
    rw [elementValues]
    exact value_safe (link_safe hm scope none e) (elementValues_safe hm scope rest) hs
  | .spread e :: rest => fun s hs => by
    rw [elementValues]
    exact spread_safe (link_safe hm scope none e) (elementValues_safe hm scope rest) hs
  | .hole :: rest => fun s hs => by
    rw [elementValues]
    exact (elementValues_safe hm scope rest hs).bind hs fun _ _ _ _ hrest =>
      .pure (.cons trivial hrest)

theorem argumentValues_safe (hm : m.Sound lax n) (scope : Nat) :
    ∀ args : List Argument, Safe lax n (Value.AllKnown lax) (argumentValues m scope args)
  | [] => fun s hs => by
    rw [argumentValues]
    exact .pure .nil
  | .value e :: rest => fun s hs => by
    rw [argumentValues]
    exact value_safe (link_safe hm scope none e) (argumentValues_safe hm scope rest) hs
  | .spread e :: rest => fun s hs => by
    rw [argumentValues]
    exact spread_safe (link_safe hm scope none e) (argumentValues_safe hm scope rest) hs

theorem lastValue_behaves (hm : m.Sound lax n) (scope : Nat) {s : Store} (hs : s.Ready lax)
    {last : Value} (hlast : s.Knows lax last) :
    ∀ es : List Expr, Behaves lax n s (Value.Known lax) (lastValue m scope last es s)
  | [] => by
    rw [lastValue]
    exact .pure hlast
  | e :: rest => by
    rw [lastValue]
    refine ((valueOf_safe (link_safe hm scope none e)).holding _ hs).bind hs ?_
    exact fun v s₂ _ hs₂ hv => lastValue_behaves hm scope hs₂ hv rest

theorem keyText_safe (hm : m.Sound lax n) (scope : Nat) :
    ∀ key : PropertyKey, Safe lax n (fun _ _ => True) (keyText m scope key)
  | .named name => fun s hs => by
    rw [keyText]
    exact .pure trivial
  | .computed e => fun s hs => by
    rw [keyText]
    exact keyOf_safe (link_safe hm scope none e) hs

theorem addProperties_safe (hm : m.Sound lax n) (scope : Nat) (object : Value) :
    ∀ ps : List ObjectProperty, Safe lax n (fun _ _ => True) (addProperties m scope object ps)
  | [] => fun s hs => by
    rw [addProperties]
    exact .pure trivial
  | .value k e :: rest => fun s hs => by
    rw [addProperties]
    refine (keyText_safe hm scope k hs).bind hs fun key s₁ _ hs₁ _ => ?_
    refine (valueOf_safe (link_safe hm scope (some key) e) hs₁).bind hs₁ fun v s₂ _ hs₂ hv => ?_
    refine (setData_behaves hs₂ object key hv).bind hs₂ fun _ s₃ _ hs₃ _ => ?_
    exact addProperties_safe hm scope object rest hs₃
  | .getter k body :: rest => fun s hs => by
    rw [addProperties]
    refine (keyText_safe hm scope k hs).bind hs fun key s₁ _ hs₁ _ => ?_
    refine (newFunction_behaves body scope (some key)).bind hs₁ fun f s₂ _ hs₂ hf => ?_
    refine (accessor_behaves hs₂ object key ?_ (by simp)).bind hs₂ fun _ s₃ _ hs₃ _ => ?_
    · rintro v ⟨⟩
      exact hf
    · exact addProperties_safe hm scope object rest hs₃
  | .setter k body :: rest => fun s hs => by
    rw [addProperties]
    refine (keyText_safe hm scope k hs).bind hs fun key s₁ _ hs₁ _ => ?_
    refine (newFunction_behaves body scope (some key)).bind hs₁ fun f s₂ _ hs₂ hf => ?_
    refine (accessor_behaves hs₂ object key (by simp) ?_).bind hs₂ fun _ s₃ _ hs₃ _ => ?_
    · rintro v ⟨⟩
      exact hf
    · exact addProperties_safe hm scope object rest hs₃
  | .spread e :: rest => fun s hs => by
    rw [addProperties]
    refine (valueOf_safe (link_safe hm scope none e) hs).bind hs fun source s₁ _ hs₁ hsource =>
      .get ?_
    refine (copyProperties_behaves hm hs₁ object hsource _).bind hs₁ fun _ s₂ _ hs₂ _ => ?_
    exact addProperties_safe hm scope object rest hs₂

theorem placeOf_safe (hm : m.Sound lax n) (scope : Nat) :
    ∀ e : Expr, Safe lax n (Place.Known lax) (placeOf m scope e)
  | .identifier name _ => fun s hs => by
    rw [placeOf]
    exact .pure trivial
  | .member object key _ _ => fun s hs => by
    rw [placeOf]
    exact (valueOf_safe (link_safe hm scope none object) hs).bind hs fun _ _ _ _ hv => .pure hv
  | .index object index _ _ => fun s hs => by
    rw [placeOf]
    refine (valueOf_safe (link_safe hm scope none object) hs).bind hs
      fun base s₁ _ hs₁ (hb : s₁.Knows lax base) => ?_
    refine ((valueOf_safe (link_safe hm scope none index)).holding _ hs₁).bind hs₁
      fun v s₂ h₂ hs₂ _ => ?_
    exact (Behaves.textOf v).bind hs₂ fun _ _ h₃ _ _ => .pure (hb.later (h₂.trans h₃))
  | .superMember key _ => fun s hs => by
    rw [placeOf]
    exact .pure trivial
  | .number .. | .string .. | .boolean .. | .null .. | .template .. | .this .. | .array ..
  | .object .. | .function .. | .classOf .. | .call .. | .new .. | .superCall .. | .unary ..
  | .update .. | .binary .. | .logical .. | .conditional .. | .assign .. | .sequence .. =>
    fun s hs => by
    simp only [placeOf]
    exact .fail _

theorem deleteAt_safe (hm : m.Sound lax n) (scope : Nat) :
    ∀ e : Expr, Safe lax n (fun _ _ => True) (deleteAt m scope e)
  | .member object key _ _ => fun s hs => by
    rw [deleteAt]
    exact (valueOf_safe (link_safe hm scope none object) hs).bind hs fun base _ _ hs₁ _ =>
      deleteProperty_behaves hs₁ base key
  | .index object index _ _ => fun s hs => by
    rw [deleteAt]
    refine (valueOf_safe (link_safe hm scope none object) hs).bind hs fun base s₁ _ hs₁ _ => ?_
    refine ((valueOf_safe (link_safe hm scope none index)).holding _ hs₁).bind hs₁
      fun v s₂ _ hs₂ _ => ?_
    exact (Behaves.textOf v).bind hs₂ fun key _ _ hs₃ _ => deleteProperty_behaves hs₃ base key
  | .number .. | .string .. | .boolean .. | .null .. | .template .. | .identifier .. | .this ..
  | .array .. | .object .. | .function .. | .classOf .. | .call .. | .superMember .. | .new ..
  | .superCall .. | .unary .. | .update .. | .binary .. | .logical .. | .conditional ..
  | .assign .. | .sequence .. =>
    fun s hs => by
    simp only [deleteAt]
    exact .pure trivial

theorem classValue_safe (hm : m.Sound lax n) (scope : Nat) (given : Option String) :
    ∀ body : ClassDef, Safe lax n (fun k c => (Value.classOf c).Known lax k)
      (classValue m scope given body)
  | ⟨name, superclass, constructor?, members, span⟩ => fun s hs => by
    rw [classValue]
    refine (superclassValue_safe hm scope superclass hs).bind hs fun parent s₁ _ hs₁ hparent => ?_
    refine (newClass_behaves hs₁ _ hparent scope given).bind hs₁
      fun out s₂ _ hs₂ (hc : s₂.Knows lax (.classOf out.1)) => ?_
    refine (staticScope_behaves hs₂ hc out.2).bind hs₂ fun inner s₃ h₃ hs₃ _ => ?_
    refine (Behaves.inScope hs₃ fun _ _ hs₄ => staticFields_safe hm out.1 inner members hs₄).bind
      hs₃ ?_
    exact fun _ _ h₅ _ _ => .pure (hc.later (h₃.trans h₅))

theorem superclassValue_safe (hm : m.Sound lax n) (scope : Nat) :
    ∀ superclass : Option Expr, Safe lax n (Value.Known lax) (superclassValue m scope superclass)
  | none => fun s hs => by
    rw [superclassValue]
    exact .pure trivial
  | some e => fun s hs => by
    rw [superclassValue]
    exact (valueOf_safe (link_safe hm scope none e) hs).bind hs fun _ _ _ hs₁ hv =>
      checkSuperclass_behaves hs₁ hv

theorem staticFields_safe (hm : m.Sound lax n) (c scope : Nat) :
    ∀ members : List ClassMember, Safe lax n (fun _ _ => True) (staticFields m c scope members)
  | [] => fun s hs => by
    rw [staticFields]
    exact .pure trivial
  | ⟨name, true, .field init⟩ :: rest => fun s hs => by
    rw [staticFields]
    refine (fieldValue_safe hm scope name init hs).bind hs fun v s₁ _ hs₁ hv => ?_
    have hput := putMember_behaves (n := n) hs₁ c true (f := (·.insert name (.data v)))
      fun h => h.insert (p := .data v) hv name
    exact hput.bind hs₁ fun _ _ _ hs₂ _ => staticFields_safe hm c scope rest hs₂
  | ⟨_, false, .field _⟩ :: rest | ⟨_, _, .method _⟩ :: rest | ⟨_, _, .getter _⟩ :: rest
  | ⟨_, _, .setter _⟩ :: rest => fun s hs => by
    simp only [staticFields]
    exact staticFields_safe hm c scope rest hs

theorem fieldValue_safe (hm : m.Sound lax n) (scope : Nat) (name : String) :
    ∀ init : Option Expr, Safe lax n (Value.Known lax) (fieldValue m scope name init)
  | none => fun s hs => by
    rw [fieldValue]
    exact .pure trivial
  | some e => fun s hs => by
    rw [fieldValue]
    exact valueOf_safe (link_safe hm scope (some name) e) hs

end

theorem eval_behaves (hm : m.Sound lax n) (hs : s.Ready lax) (scope : Nat) (e : Expr) :
    Behaves lax n s (Value.Known lax) (eval m scope e s) :=
  valueOf_safe (link_safe hm scope none e) hs

theorem evalNamed_behaves (hm : m.Sound lax n) (hs : s.Ready lax) (scope : Nat) (name : String)
    (e : Expr) :
    Behaves lax n s (Value.Known lax) (evalNamed m scope name e s) :=
  valueOf_safe (link_safe hm scope (some name) e) hs

end EvalM

end Typings
