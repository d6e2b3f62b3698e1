import Typings.Config.Settings
import Typings.Proofs.Text.Split

namespace Typings

namespace HostModules

variable {h : HostModules} {m : String}

theorem packageOf_deep (m p : String) : packageOf (m ++ "/" ++ p) = packageOf m := by
  unfold packageOf
  rw [String.toList_append, String.toList_append, List.append_assoc, List.takeWhile_append]
  split
  · rename_i hall
    have hself := (List.takeWhile_prefix (· != '/')).eq_of_length hall
    simp [hself]
  · rfl

theorem packageOf_of_no_slash (hm : '/' ∉ m.toList) : packageOf m = m := by
  have hall : m.toList.takeWhile (· != '/') = m.toList := by
    rw [← List.append_nil m.toList, List.takeWhile_append_of_pos, List.takeWhile_nil]
    intro c hc
    rw [bne_iff_ne]
    rintro rfl
    exact hm hc
  rw [packageOf, hall, String.ofList_toList]

theorem startsWith_node_deep (m p : String) :
    (m ++ "/" ++ p).startsWith "node:" = m.startsWith "node:" := by
  have hmark : '/' ∉ "node:".toList := by decide
  have hchars : (m ++ "/" ++ p).toList = m.toList ++ '/' :: p.toList := by simp
  rw [Bool.eq_iff_iff, String.startsWith_string_iff, String.startsWith_string_iff, hchars,
    prefix_marked_iff hmark]

theorem isSome_find?_iff (specifier : String) :
    (h.find? specifier).isSome ↔ specifier.startsWith "node:" = true ∨
      packageOf specifier ∈ coreModules ∨ packageOf specifier ∈ h.names := by
  unfold find?
  cases specifier.startsWith "node:" with
  | true => simp
  | false => simp

/-- A name is found: as one of the host itself, or by its package. -/
def Found (h : HostModules) (m : String) : Prop :=
  m.startsWith "node:" = true ∨ '/' ∉ m.toList ∨ packageOf m ∈ coreModules ∨ packageOf m ∈ h.names

theorem isSome_find?_of_mem (hm : m ∈ h.names) : (h.find? m).isSome ↔ h.Found m := by
  rw [isSome_find?_iff, Found]
  refine or_congr_right ⟨.inr, ?_⟩
  rintro (hslash | hpackage)
  · rw [packageOf_of_no_slash hslash]
    exact .inr hm
  · exact hpackage

theorem isSome_find?_deep (m p : String) :
    (h.find? (m ++ "/" ++ p)).isSome ↔ (h.find? m).isSome := by
  rw [isSome_find?_iff, isSome_find?_iff, packageOf_deep, startsWith_node_deep]

end HostModules

theorem Settings.hosts_of_resolve {c : ConfigFile} {o : Overrides} {settings : Settings}
    {names : List String} (h : resolve c o = .ok settings) (hnames : c.hostModules = some names) :
    settings.recoveryOptions.hosts = ⟨names⟩ := by
  unfold resolve at h
  cases hlanguage : languageOf (o.language <|> c.language) with
  | error fault =>
    rw [hlanguage] at h
    cases h
  | ok language =>
    rw [hlanguage] at h
    cases h
    simp [recoveryOptions, hnames]

theorem findTarget_host {t : FileTree} {hosts : HostModules} {u : Units} {importer : Path}
    {specifier : String} (h : isRelative specifier = false) :
    (∃ target, findTarget t hosts u importer specifier = .ok target) ↔
      (hosts.find? specifier).isSome := by
  unfold findTarget
  rw [h, if_neg Bool.false_ne_true]
  cases hosts.find? specifier with
  | none => simp
  | some name => simp [Pure.pure, Except.pure]

/--
A name that is configured can be imported, and so can what lies inside it, exactly if it starts with
`node:`, has no slash, or has a package that is one of the host or is configured too. A specifier
with no such package and without `node:` is refused. The names are those of the configuration.
-/
theorem configured_modules_found_iff (names : List String) :
    let hosts : HostModules := ⟨names⟩
    (∀ c o settings, Settings.resolve c o = .ok settings → c.hostModules = some names →
      settings.recoveryOptions.hosts = hosts) ∧
    (∀ m ∈ names, isRelative m = false →
      ((hosts.find? m).isSome ↔ hosts.Found m) ∧
      (∀ p, (hosts.find? (m ++ "/" ++ p)).isSome ↔ hosts.Found m) ∧
      ∀ t u importer, (∃ target, findTarget t hosts u importer m = .ok target) ↔ hosts.Found m) ∧
    ∀ specifier, hosts.find? specifier = none ↔ specifier.startsWith "node:" = false ∧
      HostModules.packageOf specifier ∉ coreModules ∧
      HostModules.packageOf specifier ∉ names := by
  intro hosts
  refine ⟨fun c o settings => Settings.hosts_of_resolve, fun m hm hrelative => ?_, fun specifier => ?_⟩
  · have hfound : (hosts.find? m).isSome ↔ _ := HostModules.isSome_find?_of_mem hm
    exact ⟨hfound, fun p => (HostModules.isSome_find?_deep m p).trans hfound,
      fun t u importer => (findTarget_host hrelative).trans hfound⟩
  · rw [← Option.not_isSome_iff_eq_none, HostModules.isSome_find?_iff]
    simp [hosts, not_or]

/-- A name inside a package that is configured too. -/
theorem configured_modules_found_iff_inPackage :
    let names := ["antlr4", "antlr4/index.js"]
    let c : ConfigFile := { hostModules := some names }
    let settings : Settings := { hostModules := names }
    (Settings.resolve c {} = .ok settings ∧ c.hostModules = some names ∧
      "antlr4/index.js" ∈ names ∧ isRelative "antlr4/index.js" = false) ∧
    ∀ p, (settings.recoveryOptions.hosts.find? ("antlr4/index.js" ++ "/" ++ p)).isSome := by
  intro names c settings
  have hresolve : Settings.resolve c {} = .ok settings := rfl
  have hmem : "antlr4/index.js" ∈ names := by decide
  have hrelative : isRelative "antlr4/index.js" = false := by decide +kernel
  obtain ⟨hhosts, hfound, _⟩ := configured_modules_found_iff names
  refine ⟨⟨hresolve, rfl, hmem, hrelative⟩, fun p => ?_⟩
  rw [hhosts c {} settings hresolve rfl, (hfound _ hmem hrelative).2.1 p]
  exact .inr (.inr (.inr (by decide +kernel)))

/-- A package inside a scope has a slash in its name: it is accepted, and not found. -/
theorem scoped_module_not_found :
    let names := ["@antlr/runtime"]
    ({ hostModules := some names } : ConfigFile).validate = .ok () ∧
      isRelative "@antlr/runtime" = false ∧
      (⟨names⟩ : HostModules).find? "@antlr/runtime" = none := by
  decide +kernel

end Typings
