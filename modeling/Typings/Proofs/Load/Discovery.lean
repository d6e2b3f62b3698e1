import Mathlib.Logic.Relation
import Typings.Load.Module
import Typings.Proofs.Load.ImportOrder
import Typings.Proofs.Outcome

namespace Typings

/-- A module that an import can mean. -/
inductive ModuleRef
  | file (path : Path)
  | host (name : String)

namespace ModuleRef

/-- What a module is known by: a path, or `node:` and a name. -/
def key : ModuleRef → String
  | file path => path.text
  | host name => HostModules.key name

inductive Means (t : FileTree) (hosts : HostResolver) (importer : Path) :
    String → ModuleRef → Prop
  | file {specifier path} (h : isRelative specifier)
      (hr : t.resolve specifier importer = .ok path) :
    Means t hosts importer specifier (.file path)
  | host {specifier name} (h : ¬ isRelative specifier) (hr : hosts specifier = some name) :
    Means t hosts importer specifier (.host name)

inductive Imports (t : FileTree) (hosts : HostResolver) : ModuleRef → ModuleRef → Prop
  | intro {path unit d m} (hr : t.readModule path = .ok unit) (hd : d ∈ unit.body.imports)
    (hm : Means t hosts path d.specifier m) : Imports t hosts (.file path) m

/-- The file `start` is the module, or imports it directly or through others. -/
def Needs (t : FileTree) (hosts : HostResolver) (start : Path) : ModuleRef → Prop :=
  Relation.ReflTransGen (Imports t hosts) (.file start)

/-- What is known of a module is what its file says; only the meaning of its imports is added. -/
def Shows (t : FileTree) : ModuleRef → LoadUnit → Prop
  | file path, .source unit =>
    unit.path = path ∧ t.readModule path = .ok { unit with targets := [] }
  | host name, .host name' => name' = name
  | _, _ => False

variable {t : FileTree} {hosts : HostResolver} {start importer path : Path} {m m' : ModuleRef}
variable {specifier : String}

theorem Means.unique (h : Means t hosts importer specifier m)
    (h' : Means t hosts importer specifier m') :
    m = m' := by
  cases h with
  | file hr hp =>
    cases h' with
    | file _ hp' =>
      cases hp.symm.trans hp'
      rfl
    | host hr' _ => exact absurd hr hr'
  | host hr hn =>
    cases h' with
    | file hr' _ => exact absurd hr' hr
    | host _ hn' =>
      cases hn.symm.trans hn'
      rfl

def fileKeys (t : FileTree) : List String := t.entries.map fun e => (FileTree.pathOf e.1).text

theorem mem_fileKeys_of_resolve (h : t.resolve specifier importer = .ok path) :
    path.text ∈ fileKeys t := by
  unfold FileTree.resolve at h
  split at h
  · cases h
  · dsimp only at h
    split at h
    · cases h
    · rename_i candidate hfind
      have hfile := List.find?_some hfind
      unfold FileTree.isFile FileTree.lookup? at hfile
      cases hl : t.locate candidate with
      | error e => simp [hl] at hfile
      | ok place =>
        simp only [hl] at hfile
        have hpath : path = FileTree.pathOf place := by
          simpa [FileTree.canonical, hl, Except.mapError, Functor.map, Except.map] using h.symm
        have hentry : ∃ content, t.entry? place = some (.file content) := by
          split at hfile
          · exact ⟨_, by assumption⟩
          · cases hfile
        obtain ⟨content, hentry⟩ := hentry
        unfold FileTree.entry? at hentry
        split at hentry
        · cases hentry
        · rw [hpath]
          exact List.mem_map_of_mem (Association.mem_of_lookup hentry)

theorem Needs.file_key (h : Needs t hosts start (.file path)) :
    path = start ∨ path.text ∈ fileKeys t := by
  rcases Relation.ReflTransGen.cases_tail h with he | ⟨m, _, hi⟩
  · cases he
    exact .inl rfl
  · cases hi with
    | intro _ _ hm =>
      cases hm with
      | file _ hr => exact .inr (mem_fileKeys_of_resolve hr)

end ModuleRef

open ModuleRef

/-- A fault that would be a defect of loading, whatever the files say. -/
def LoadFault.IsDefect : LoadFault → Prop
  | exhausted | missing _ | cycle (.notFound _) => True
  | _ => False

namespace Units

variable {u : Units} {k key : String} {unit found : LoadUnit} {source : SourceUnit}
variable {targets : List (String × String)}

def keys (u : Units) : List String := u.units.map (·.1)

/-- The keys of the modules that were read from files. -/
def sourceKeys (u : Units) : List String :=
  u.units.filterMap fun
    | (key, .source _) => some key
    | _ => none

theorem mem_sourceKeys (h : u.keys.Nodup) :
    k ∈ u.sourceKeys ↔ ∃ source, u.find? k = some (.source source) := by
  simp only [sourceKeys, List.mem_filterMap]
  constructor
  · rintro ⟨⟨key, unit⟩, hmem, hk⟩
    cases unit with
    | host name => cases hk
    | source source =>
      cases hk
      exact ⟨source, Association.lookup_of_mem h hmem⟩
  · rintro ⟨source, hs⟩
    exact ⟨(k, .source source), Association.mem_of_lookup hs, rfl⟩

theorem sourceKeys_sublist (u : Units) : u.sourceKeys.Sublist u.keys := by
  unfold sourceKeys keys
  induction u.units with
  | nil => exact .slnil
  | cons entry units ih =>
    obtain ⟨key, unit⟩ := entry
    cases unit with
    | source source => exact ih.cons_cons key
    | host name => exact ih.cons key

theorem find?_isSome_iff : (u.find? k).isSome ↔ k ∈ u.keys := Association.lookup_isSome_iff_mem

theorem add_of_find? (h : (u.find? key).isSome) : u.add key unit = u := by
  rw [add, if_pos h]

theorem add_of_new (h : u.find? key = none) :
    u.add key unit = { u with units := u.units ++ [(key, unit)] } := by
  rw [add, if_neg (by simp [h])]

theorem find?_add_of_some (h : u.find? k = some found) : (u.add key unit).find? k = some found := by
  unfold add
  split
  · exact h
  · simp only [find?] at h ⊢
    rw [List.lookup_append, h, Option.some_or]

/-- What noting the meaning of imports does to one entry. -/
def retarget (key : String) (targets : List (String × String)) (k : String) : LoadUnit → LoadUnit
  | .source unit => .source (if k = key then { unit with targets } else unit)
  | .host name => .host name

theorem setTargets_units (u : Units) (key : String) (targets : List (String × String)) :
    (u.setTargets key targets).units = u.units.map fun e =>
      (e.1, retarget key targets e.1 e.2) := by
  simp only [setTargets]
  apply List.map_congr_left
  rintro ⟨k, unit⟩ _
  cases unit with
  | host name => rfl
  | source source =>
    simp only [retarget]
    split <;> rfl

theorem find?_setTargets (u : Units) (key : String) (targets : List (String × String))
    (k : String) :
    (u.setTargets key targets).find? k = (u.find? k).map (retarget key targets k) := by
  rw [find?, setTargets_units, Association.lookup_map_values]
  rfl

theorem keys_setTargets : (u.setTargets key targets).keys = u.keys := by
  rw [keys, setTargets_units, List.map_map]
  rfl

theorem sourceKeys_setTargets : (u.setTargets key targets).sourceKeys = u.sourceKeys := by
  rw [sourceKeys, setTargets_units, List.filterMap_map]
  apply List.filterMap_congr
  rintro ⟨k, unit⟩ _
  cases unit <;> rfl

end Units

variable {t : FileTree} {hosts : HostResolver} {start path : Path} {u u' : Units}
variable {key specifier : String} {source : SourceUnit} {m : ModuleRef}

/-- What was found are modules that `start` needs, each once, and the graph has them. -/
structure Units.Sound (t : FileTree) (hosts : HostResolver) (start : Path) (u : Units) : Prop where
  nodup : u.keys.Nodup
  needed : ∀ key unit, u.find? key = some unit →
    ∃ m, Needs t hosts start m ∧ m.key = key ∧ m.Shows t unit
  graph : u.graph.Sound
  keys_iff : ∀ key, u.graph.contains key ↔ key ∈ u.keys

/-- All imports of a module that was found are known, and so are the modules that they mean. -/
def Units.Settled (t : FileTree) (hosts : HostResolver) (u : Units) (key : String)
    (unit : SourceUnit) : Prop :=
  ∀ d ∈ unit.body.imports, ∃ m, Means t hosts unit.path d.specifier m ∧
    unit.targets.lookup d.specifier = some m.key ∧ (u.find? m.key).isSome ∧ u.graph.Edge key m.key

theorem Units.Sound.source_ref (h : u.Sound t hosts start)
    (hs : u.find? key = some (.source source)) :
    Needs t hosts start (.file source.path) ∧ source.path.text = key ∧
      t.readModule source.path = .ok { source with targets := [] } := by
  obtain ⟨m, hm, hkey, hshows⟩ := h.needed key _ hs
  cases m with
  | host name => exact hshows.elim
  | file path =>
    obtain ⟨rfl, hread⟩ := hshows
    exact ⟨hm, hkey, hread⟩

theorem Units.Sound.length_sourceKeys_le (h : u.Sound t hosts start) :
    u.sourceKeys.length ≤ t.entries.length + 1 := by
  have hnodup := h.nodup.sublist u.sourceKeys_sublist
  have hsub : u.sourceKeys ⊆ start.text :: fileKeys t := by
    intro k hk
    obtain ⟨source, hs⟩ := (Units.mem_sourceKeys h.nodup).1 hk
    obtain ⟨hneeds, rfl, _⟩ := h.source_ref hs
    rcases hneeds.file_key with he | hmem
    · exact he ▸ List.mem_cons_self
    · exact List.mem_cons_of_mem _ hmem
  have hle := (List.subperm_of_subset hnodup hsub).length_le
  simpa [fileKeys] using hle

theorem Units.Sound.setTargets (h : u.Sound t hosts start) (key : String)
    (targets : List (String × String)) : (u.setTargets key targets).Sound t hosts start := by
  refine ⟨?_, ?_, h.graph, ?_⟩
  · rw [Units.keys_setTargets]
    exact h.nodup
  · intro k unit hk
    rw [Units.find?_setTargets] at hk
    obtain ⟨unit', hk', rfl⟩ := Option.map_eq_some_iff.1 hk
    obtain ⟨m, hm, hkey, hshows⟩ := h.needed k unit' hk'
    refine ⟨m, hm, hkey, ?_⟩
    cases m with
    | host name =>
      cases unit' with
      | host name' => exact hshows
      | source source => exact hshows.elim
    | file path =>
      cases unit' with
      | host name' => exact hshows.elim
      | source source =>
        simp only [Units.retarget]
        split
        · exact hshows
        · exact hshows
  · rw [Units.keys_setTargets]
    exact h.keys_iff

theorem Units.Sound.add (h : u.Sound t hosts start) (hm : Needs t hosts start m)
    (hshows : m.Shows t unit) : ((u.add m.key unit).keys.Nodup) ∧
      ∀ key found, (u.add m.key unit).find? key = some found →
        ∃ m, Needs t hosts start m ∧ m.key = key ∧ m.Shows t found := by
  cases hf : u.find? m.key with
  | some found =>
    rw [Units.add_of_find? (by simp [hf])]
    exact ⟨h.nodup, h.needed⟩
  | none =>
    rw [Units.add_of_new hf]
    have hnew : m.key ∉ u.keys := by
      rw [← Units.find?_isSome_iff, hf]
      simp
    refine ⟨?_, ?_⟩
    · simp only [Units.keys, List.map_append, List.map_cons, List.map_nil]
      exact h.nodup.append (List.nodup_singleton _) (by simpa using hnew)
    · intro key found hk
      simp only [Units.find?, List.lookup_append] at hk
      rcases Option.or_eq_some_iff.1 hk with hk | ⟨_, hk⟩
      · exact h.needed key found hk
      · rw [Association.lookup_cons_eq] at hk
        split at hk
        · cases hk
          exact ⟨m, hm, by simp [*], hshows⟩
        · cases hk

theorem Units.keys_add (u : Units) (key : String) (unit : LoadUnit) :
    k ∈ (u.add key unit).keys ↔ k ∈ u.keys ∨ k = key := by
  unfold Units.add
  split
  · rename_i hk
    rw [Units.find?_isSome_iff] at hk
    constructor
    · exact .inl
    · rintro (h | rfl)
      · exact h
      · exact hk
  · simp [Units.keys]

/-- What is learned of the module that a specifier means. -/
def Learned (t : FileTree) (u : Units) (m : ModuleRef) : Option LoadUnit → Prop
  | none => (u.find? m.key).isSome
  | some (.source unit) => u.find? m.key = none ∧ m.Shows t (.source unit)
  | some (.host name) => m.Shows t (.host name)

theorem Learned.mem_keys {unit? : Option LoadUnit} (h : Learned t u m unit?) :
    k ∈ (u.learn m.key unit?).keys ↔ k ∈ u.keys ∨ k = m.key := by
  cases unit? with
  | some unit => exact Units.keys_add u m.key unit
  | none =>
    have hkey : m.key ∈ u.keys := Units.find?_isSome_iff.1 h
    simp only [Units.learn]
    constructor
    · exact .inl
    · rintro (h | rfl)
      · exact h
      · exact hkey

theorem Learned.sourceKeys {unit? : Option LoadUnit} (h : Learned t u m unit?) :
    (u.learn m.key unit?).sourceKeys = u.sourceKeys ++ newSource m.key unit? := by
  match unit?, h with
  | none, _ => exact (List.append_nil _).symm
  | some (.source unit), h =>
    rw [Units.learn, Units.add_of_new h.1]
    simp [Units.sourceKeys, newSource]
  | some (.host name), _ =>
    simp only [Units.learn, newSource, List.append_nil]
    unfold Units.add
    split
    · rfl
    · simp [Units.sourceKeys]

theorem Learned.needed {unit? : Option LoadUnit} (h : Learned t u m unit?)
    (hu : u.Sound t hosts start) (hm : Needs t hosts start m) :
    (u.learn m.key unit?).keys.Nodup ∧ ∀ key found, (u.learn m.key unit?).find? key = some found →
      ∃ m, Needs t hosts start m ∧ m.key = key ∧ m.Shows t found := by
  match unit?, h with
  | none, _ => exact ⟨hu.nodup, hu.needed⟩
  | some (.source unit), h => exact hu.add hm h.2
  | some (.host name), h => exact hu.add hm h

theorem Units.find?_learn (unit? : Option LoadUnit) (h : u.find? k = some found) :
    (u.learn key unit?).find? k = some found := by
  cases unit? with
  | none => exact h
  | some unit => exact Units.find?_add_of_some h

theorem Units.graph_learn (u : Units) (key : String) (unit? : Option LoadUnit) :
    (u.learn key unit?).graph = u.graph := by
  cases unit? with
  | none => rfl
  | some unit =>
    simp only [Units.learn, Units.add]
    split <;> rfl

theorem readModule_ends (t : FileTree) (path : Path) :
    Ends (fun unit => unit.path = path ∧ unit.targets = [] ∧ t.readModule path = .ok unit)
      (¬ LoadFault.IsDefect ·) (t.readModule path) := by
  unfold FileTree.readModule
  cases t.readText path with
  | error e => exact id
  | ok text =>
    cases hm : Module.ofSource text with
    | error e => simp [Ends, hm, Except.mapError, bind, Except.bind, LoadFault.IsDefect]
    | ok body => simp [Ends, hm, Except.mapError, bind, Except.bind, pure, Except.pure]

theorem findTarget_ends (t : FileTree) (hosts : HostResolver) (u : Units) (importer : Path)
    (specifier : String) :
    Ends (fun out => ∃ m, Means t hosts importer specifier m ∧ out.1 = m.key ∧ Learned t u m out.2)
      (¬ LoadFault.IsDefect ·) (findTarget t hosts u importer specifier) := by
  unfold findTarget
  by_cases hr : isRelative specifier
  · rw [if_pos hr]
    refine Ends.bind (P := fun path => t.resolve specifier importer = .ok path) ?_ ?_
    · exact Ends.mapError (fun path h => h) fun _ _ h => h
    · intro path hpath
      by_cases hf : (u.find? path.text).isSome
      · rw [if_pos hf]
        exact ⟨.file path, .file hr hpath, rfl, hf⟩
      · rw [if_neg hf]
        refine (readModule_ends t path).bind ?_
        rintro unit ⟨hup, htargets, hread⟩
        refine ⟨.file path, .file hr hpath, rfl, Option.not_isSome_iff_eq_none.1 hf, hup, ?_⟩
        rw [hread, ← htargets]
  · rw [if_neg hr]
    cases hh : hosts specifier with
    | none => exact id
    | some name => exact ⟨.host name, .host hr hh, rfl, rfl⟩

/-- Looking at the specifiers `done` of the module `key` at `path`, when `base` was known. -/
structure Discovery.Sound (t : FileTree) (hosts : HostResolver) (start : Path) (key : String)
    (path : Path) (base : Units) (done : List String) (d : Discovery) : Prop where
  sound : d.units.Sound t hosts start
  kept : ∀ k unit, base.find? k = some unit → d.units.find? k = some unit
  edges : ∀ a b, base.graph.Edge a b → d.units.graph.Edge a b
  sources : d.units.sourceKeys = base.sourceKeys ++ d.discovered
  targets : ∀ specifier ∈ done, ∃ m, Means t hosts path specifier m ∧
    d.targets.lookup specifier = some m.key ∧ (d.units.find? m.key).isSome ∧
      d.units.graph.Edge key m.key
  means : ∀ specifier k, (specifier, k) ∈ d.targets →
    ∃ m, Means t hosts path specifier m ∧ m.key = k

variable {d : Discovery} {base : Units} {done : List String}

theorem Discovery.Sound.mem_keys (h : d.Sound t hosts start key path base done)
    (hk : k ∈ base.keys) :
    k ∈ d.units.keys := by
  obtain ⟨unit, hunit⟩ := Option.isSome_iff_exists.1 (Units.find?_isSome_iff.2 hk)
  exact Units.find?_isSome_iff.1 (by rw [h.kept k unit hunit]; rfl)

theorem Discovery.Sound.lookup_snoc (h : d.Sound t hosts start key path base done)
    (hm : Means t hosts path specifier m) :
    (d.targets ++ [(specifier, m.key)]).lookup specifier = some m.key := by
  rw [List.lookup_append]
  cases hl : d.targets.lookup specifier with
  | none => simp
  | some k =>
    obtain ⟨m', hm', rfl⟩ := h.means specifier k (Association.mem_of_lookup hl)
    rw [hm'.unique hm, Option.some_or]

theorem discover_ends (h : d.Sound t hosts start key path base done) (hkey : key ∈ base.keys)
    (hneeds : ∀ m, Means t hosts path specifier m → Needs t hosts start m) :
    Ends (Discovery.Sound t hosts start key path base (done ++ [specifier]))
      (¬ LoadFault.IsDefect ·) (discover t hosts key path d specifier) := by
  unfold discover
  refine (findTarget_ends t hosts d.units path specifier).bind ?_
  rintro ⟨target, unit?⟩ ⟨m, hm, htarget, hl⟩
  dsimp only at htarget hl ⊢
  subst htarget
  have hmem : key ∈ d.units.keys := h.mem_keys hkey
  have hsome : ((d.units.learn m.key unit?).find? m.key).isSome :=
    Units.find?_isSome_iff.2 (hl.mem_keys.2 (.inr rfl))
  have hedge : (d.units.graph.connect key m.key).Edge key m.key :=
    ImportGraph.edge_connect.2 (.inr ⟨rfl, rfl⟩)
  have hedges : ∀ a b, d.units.graph.Edge a b → (d.units.graph.connect key m.key).Edge a b :=
    fun a b he => ImportGraph.edge_connect.2 (.inl (by simpa only [ImportGraph.edge_add]))
  have hkept : ∀ k unit, d.units.find? k = some unit →
      (d.units.learn m.key unit?).find? k = some unit :=
    fun k unit => Units.find?_learn unit?
  obtain ⟨hnodup, hneeded⟩ := hl.needed h.sound (hneeds m hm)
  simp only [Units.graph_learn]
  refine ⟨⟨hnodup, hneeded, h.sound.graph.connect key m.key, ?_⟩, ?_, ?_, ?_, ?_, ?_⟩
  · intro k
    rw [ImportGraph.contains_connect, h.sound.keys_iff]
    change _ ↔ k ∈ (d.units.learn m.key unit?).keys
    rw [hl.mem_keys]
    constructor
    · rintro (hk | rfl | hk)
      · exact .inl hk
      · exact .inl hmem
      · exact .inr hk
    · rintro (hk | hk)
      · exact .inl hk
      · exact .inr (.inr hk)
  · exact fun k unit hk => hkept k unit (h.kept k unit hk)
  · exact fun a b he => hedges a b (h.edges a b he)
  · change (d.units.learn m.key unit?).sourceKeys = _
    rw [hl.sourceKeys, h.sources, List.append_assoc]
  · intro specifier' hs
    rcases List.mem_append.1 hs with hs | hs
    · obtain ⟨m', hm', hlookup, hfound, he⟩ := h.targets specifier' hs
      obtain ⟨unit, hunit⟩ := Option.isSome_iff_exists.1 hfound
      refine ⟨m', hm', ?_, Option.isSome_iff_exists.2 ⟨unit, hkept _ _ hunit⟩, hedges _ _ he⟩
      rw [List.lookup_append, hlookup, Option.some_or]
    · cases List.mem_singleton.1 hs
      exact ⟨m, hm, h.lookup_snoc hm, hsome, hedge⟩
  · intro specifier' k hk
    rcases List.mem_append.1 hk with hk | hk
    · exact h.means specifier' k hk
    · cases List.mem_singleton.1 hk
      exact ⟨m, hm, rfl⟩

theorem Units.Settled.mono (h : u.Settled t hosts key source)
    (hkept : ∀ k, (u.find? k).isSome → (u'.find? k).isSome)
    (hedges : ∀ a b, u.graph.Edge a b → u'.graph.Edge a b) : u'.Settled t hosts key source := by
  intro d hd
  obtain ⟨m, hm, hlookup, hfound, he⟩ := h d hd
  exact ⟨m, hm, hlookup, hkept _ hfound, hedges _ _ he⟩

/-- Resolving with the modules `pending` still to look at. -/
structure Working (t : FileTree) (hosts : HostResolver) (start : Path) (pending : List String)
    (u : Units) : Prop where
  sound : u.Sound t hosts start
  started : start.text ∈ u.sourceKeys
  nodup : pending.Nodup
  sources : ∀ key ∈ pending, key ∈ u.sourceKeys
  settled : ∀ key source, u.find? key = some (.source source) → key ∉ pending →
    u.Settled t hosts key source

variable {pending : List String} {count : Nat}

/-- Looking at all imports of a module settles it and leaves the new modules to look at. -/
theorem Working.step (h : Working t hosts start (key :: pending) u)
    (hs : u.find? key = some (.source source))
    (hd : d.Sound t hosts start key source.path u (source.body.imports.map (·.specifier))) :
    Working t hosts start (d.discovered ++ pending) (d.units.setTargets key d.targets) := by
  have hsome : ∀ k, (d.units.find? k).isSome →
      ((d.units.setTargets key d.targets).find? k).isSome := by
    intro k hk
    rwa [Units.find?_setTargets, Option.isSome_map]
  have hkept : ∀ k, (u.find? k).isSome → (d.units.find? k).isSome := by
    intro k hk
    exact Units.find?_isSome_iff.2 (hd.mem_keys (Units.find?_isSome_iff.1 hk))
  have hnodup : (u.sourceKeys ++ d.discovered).Nodup :=
    hd.sources ▸ hd.sound.nodup.sublist d.units.sourceKeys_sublist
  refine ⟨hd.sound.setTargets key d.targets, ?_, ?_, ?_, ?_⟩
  · rw [Units.sourceKeys_setTargets, hd.sources]
    exact List.mem_append_left _ h.started
  · refine (List.nodup_append.1 hnodup).2.1.append (List.nodup_cons.1 h.nodup).2 ?_
    intro k hk hp
    exact (List.nodup_append.1 hnodup).2.2 k (h.sources k (List.mem_cons_of_mem _ hp)) k hk rfl
  · intro k hk
    rw [Units.sourceKeys_setTargets, hd.sources]
    rcases List.mem_append.1 hk with hk | hk
    · exact List.mem_append_right _ hk
    · exact List.mem_append_left _ (h.sources k (List.mem_cons_of_mem _ hk))
  · intro k source' hk hnot
    rw [Units.find?_setTargets] at hk
    obtain ⟨unit, hunit, hretarget⟩ := Option.map_eq_some_iff.1 hk
    cases unit with
    | host name => cases hretarget
    | source source₀ =>
      -- the new modules are pending, so this one was known before
      have hmem : k ∈ d.units.sourceKeys := (Units.mem_sourceKeys hd.sound.nodup).2 ⟨source₀, hunit⟩
      rw [hd.sources] at hmem
      have hold : k ∈ u.sourceKeys := by
        rcases List.mem_append.1 hmem with hk | hk
        · exact hk
        · exact absurd (List.mem_append_left _ hk) hnot
      obtain ⟨source₁, hold⟩ := (Units.mem_sourceKeys h.sound.nodup).1 hold
      cases hunit.symm.trans (hd.kept k _ hold)
      by_cases hkey : k = key
      · subst hkey
        cases hs.symm.trans hold
        simp only [Units.retarget, if_true] at hretarget
        cases hretarget
        intro decl hdecl
        obtain ⟨m, hm, hlookup, hfound, he⟩ := hd.targets decl.specifier (List.mem_map_of_mem hdecl)
        exact ⟨m, hm, hlookup, hsome _ hfound, he⟩
      · simp only [Units.retarget, if_neg hkey] at hretarget
        cases hretarget
        have hnot : k ∉ key :: pending := by
          simp only [List.mem_cons, not_or]
          exact ⟨hkey, fun hp => hnot (List.mem_append_right _ hp)⟩
        exact (h.settled k _ hold hnot).mono (fun k hk => hsome k (hkept k hk)) hd.edges

theorem resolveAll_ends (h : Working t hosts start pending u)
    (hcount : t.entries.length + 1 + pending.length ≤ count + u.sourceKeys.length) :
    Ends (Working t hosts start []) (¬ LoadFault.IsDefect ·)
      (resolveAll t hosts count pending u) := by
  induction count generalizing pending u with
  | zero =>
    cases pending with
    | nil => exact h
    | cons key pending =>
      -- every module that was looked at has an entry of its own, so the turns cannot run out
      have hle := h.sound.length_sourceKeys_le
      simp only [List.length_cons] at hcount
      omega
  | succ count ih =>
    cases pending with
    | nil => exact h
    | cons key pending =>
      obtain ⟨source, hs⟩ := (Units.mem_sourceKeys h.sound.nodup).1 (h.sources key (by simp))
      obtain ⟨hneeds, _, hread⟩ := h.sound.source_ref hs
      have hkey : key ∈ u.keys := Units.find?_isSome_iff.1 (by rw [hs]; rfl)
      rw [resolveAll, hs]
      refine Ends.bind
        (Ends.foldlM (I := Discovery.Sound t hosts start key source.path u) _ ?_ _ ?_) ?_
      · intro before specifier after d hsplit hd
        have hmem : specifier ∈ source.body.imports.map (·.specifier) := by simp [hsplit]
        obtain ⟨decl, hdecl, rfl⟩ := List.mem_map.1 hmem
        exact discover_ends hd hkey fun m hm => hneeds.tail (.intro hread hdecl hm)
      · exact ⟨h.sound, fun _ _ hk => hk, fun _ _ he => he, (List.append_nil _).symm,
          fun _ hs => (nomatch hs), fun _ _ hk => (nomatch hk)⟩
      · intro d hd
        apply ih (h.step hs hd)
        rw [Units.sourceKeys_setTargets, hd.sources]
        simp only [List.length_append, List.length_cons] at hcount ⊢
        omega

theorem Working.initial (hpath : source.path = start) (htargets : source.targets = [])
    (hread : t.readModule start = .ok source) :
    Working t hosts start [start.text]
      { units := [(start.text, .source source)], graph := ImportGraph.add {} start.text } := by
  have hfind : ∀ key unit, List.lookup key [(start.text, LoadUnit.source source)] = some unit →
      key = start.text ∧ unit = .source source := by
    intro key unit h
    rw [Association.lookup_cons_eq] at h
    split at h
    · rename_i hkey
      cases h
      exact ⟨hkey, rfl⟩
    · cases h
  refine ⟨⟨List.nodup_singleton _, ?_, ImportGraph.Sound.empty.add _, ?_⟩,
    by simp [Units.sourceKeys], List.nodup_singleton _, by simp [Units.sourceKeys], ?_⟩
  · intro key unit h
    obtain ⟨rfl, rfl⟩ := hfind key unit h
    exact ⟨.file start, .refl, rfl, hpath, by rw [hread, ← htargets]⟩
  · intro key
    rw [ImportGraph.contains_add]
    simp [ImportGraph.contains, ImportGraph.imports?, Units.keys]
  · intro key source' h hnot
    exact absurd (List.mem_singleton.2 (hfind key _ h).1) hnot

theorem resolveModule_ends (t : FileTree) (hosts : HostResolver) (root : Path) :
    Ends (fun r => ∃ start, t.canonical root = .ok start ∧ r.root = start.text ∧
        Working t hosts start [] r.units)
      (¬ LoadFault.IsDefect ·) (resolveModule t hosts root) := by
  unfold resolveModule
  refine Ends.bind (P := fun path => t.canonical root = .ok path) ?_ ?_
  · exact Ends.mapError (fun path h => h) fun _ _ h => h
  intro start hstart
  refine (readModule_ends t start).bind ?_
  rintro unit ⟨hpath, htargets, hread⟩
  refine (resolveAll_ends (.initial hpath htargets hread) ?_).bind ?_
  · simp [Units.sourceKeys]
  · exact fun u hu => ⟨start, hstart, rfl, hu⟩

theorem pathOf_text_ne_key (place : Location) (name : String) :
    (FileTree.pathOf place).text ≠ HostModules.key name := by
  intro h
  have hchars := congrArg (fun s => s.toList.head?) h
  simp [FileTree.pathOf, HostModules.key] at hchars

theorem ModuleRef.Needs.canonical (h : Needs t hosts start (.file path))
    (hstart : ∃ place, start = FileTree.pathOf place) : ∃ place, path = FileTree.pathOf place := by
  rcases h.file_key with rfl | hmem
  · exact hstart
  · obtain ⟨entry, _, he⟩ := List.mem_map.1 hmem
    exact ⟨entry.1, congrArg Path.mk he.symm⟩

/-- No two modules that are needed have one key. -/
theorem ModuleRef.Needs.eq_of_key {m'} (h : Needs t hosts start m) (h' : Needs t hosts start m')
    (hstart : ∃ place, start = FileTree.pathOf place) (hkey : m.key = m'.key) : m = m' := by
  cases m with
  | file path =>
    cases m' with
    | file path' => exact congrArg (fun text => ModuleRef.file ⟨text⟩) hkey
    | host name =>
      obtain ⟨place, rfl⟩ := h.canonical hstart
      exact absurd hkey (pathOf_text_ne_key place name)
  | host name =>
    cases m' with
    | file path =>
      obtain ⟨place, rfl⟩ := h'.canonical hstart
      exact absurd hkey.symm (pathOf_text_ne_key place name)
    | host name' =>
      have hname : name = name' := by simpa [ModuleRef.key, HostModules.key] using hkey
      rw [hname]

section
variable (h : Working t hosts start [] u) (hstart : ∃ place, start = FileTree.pathOf place)
include h hstart

theorem Working.shows (hm : Needs t hosts start m) (hu : u.find? m.key = some unit) :
    m.Shows t unit := by
  obtain ⟨m', hm', hkey, hshows⟩ := h.sound.needed _ _ hu
  exact hm'.eq_of_key hm hstart hkey ▸ hshows

theorem Working.finds_import {m'} (hm : Needs t hosts start m) (hfound : (u.find? m.key).isSome)
    (hi : Imports t hosts m m') : (u.find? m'.key).isSome ∧ u.graph.Edge m.key m'.key := by
  obtain ⟨unit, hunit⟩ := Option.isSome_iff_exists.1 hfound
  have hshows := h.shows hstart hm hunit
  cases hi with
  | intro hr hd hmeans =>
    cases unit with
    | host name => exact hshows.elim
    | source source =>
      obtain ⟨rfl, hread⟩ := hshows
      cases hr.symm.trans hread
      obtain ⟨m'', hmeans', _, hsome, he⟩ := h.settled _ source hunit (by simp) _ hd
      rw [hmeans.unique hmeans']
      exact ⟨hsome, he⟩

theorem Working.finds (hm : Needs t hosts start m) :
    (u.find? m.key).isSome ∧ u.graph.Reaches start.text m.key := by
  induction hm with
  | refl =>
    obtain ⟨source, hs⟩ := (Units.mem_sourceKeys h.sound.nodup).1 h.started
    exact ⟨Option.isSome_iff_exists.2 ⟨_, hs⟩, .refl⟩
  | tail hm hi ih =>
    obtain ⟨hsome, he⟩ := h.finds_import hstart hm ih.1 hi
    exact ⟨hsome, ih.2.tail he⟩

theorem Working.find?_isSome_iff :
    (u.find? key).isSome ↔ ∃ m, Needs t hosts start m ∧ m.key = key := by
  constructor
  · intro hk
    obtain ⟨unit, hunit⟩ := Option.isSome_iff_exists.1 hk
    obtain ⟨m, hm, hkey, _⟩ := h.sound.needed key unit hunit
    exact ⟨m, hm, hkey⟩
  · rintro ⟨m, hm, rfl⟩
    exact (h.finds hstart hm).1

end

end Typings
