import Typings.Load.Module
import Typings.Proofs.Outcome

namespace Typings

variable {text : String} {cs : List Char}

theorem toList_append_eq {a b : String} {u v : List Char} (ha : a.toList = u) (hb : b.toList = v) :
    (a ++ b).toList = u ++ v := by
  rw [String.toList_append, ha, hb]

/-- The module that characters are; errors are shown with their line of the text. -/
def Module.ofChars (text : String) (cs : List Char) : Except String Module :=
  let scanned := Scan.tokens cs (Mark.origin 0)
  if scanned.2.isEmpty then
    (Module.ofTokens scanned.1).mapError fun errors => (errors.head?.map (·.report text)).getD ""
  else
    .error ((scanned.2.head?.map (·.report text)).getD "")

theorem Module.ofSource_eq (h : text.toList = cs) :
    Module.ofSource text = Module.ofChars text cs := by
  subst h
  unfold Module.ofSource Token.scan Module.ofChars
  dsimp only
  by_cases hempty : (Scan.tokens text.toList (Mark.origin 0)).2.isEmpty = true
  · rw [if_pos hempty, if_pos hempty]
    dsimp only
    cases Module.ofTokens (Scan.tokens text.toList (Mark.origin 0)).1 <;> rfl
  · rw [if_neg hempty, if_neg hempty]

/-- Load a module from its characters, with what it imports from a tree of files. -/
def loadChars (t : FileTree) (hosts : HostResolver) (path : Path) (text : String)
    (cs : List Char) : Except LoadFault LoadedModule := do
  let body ← (Module.ofChars text cs).mapError (.malformed path)
  let start : Units :=
    { units := [(path.text, .source { path, text, body })], graph := ImportGraph.add {} path.text }
  let units ← resolveAll t hosts (t.entries.length + 1) [path.text] start
  evaluateModules (← linkModules ⟨path.text, units⟩)

theorem FileTree.fromUTF8?_toUTF8 (s : String) : String.fromUTF8? s.toUTF8 = some s := by
  unfold String.fromUTF8?
  split
  · rfl
  · rename_i h
    exact absurd s.isValidUTF8 h

theorem FileTree.readText_eq_ok {t : FileTree} {p : Path} {place : Location} {s : String}
    (hplace : t.locate p = .ok place)
    (h : t.entry? place = some (.file s.toUTF8)) : t.readText p = .ok s := by
  unfold readText readBytes
  rw [hplace]
  simp only [bind, Except.bind, h, fromUTF8?_toUTF8]

theorem loadModule_eq {t : FileTree} {hosts : HostResolver} {root path : Path} {place : Location}
    (hpath : t.canonical root = .ok path) (hplace : t.locate path = .ok place)
    (hentry : t.entry? place = some (.file text.toUTF8)) (hcs : text.toList = cs) :
    loadModule t hosts root = loadChars t hosts path text cs := by
  have htext : t.readText path = .ok text := FileTree.readText_eq_ok hplace hentry
  unfold loadModule resolveModule FileTree.readModule loadChars
  have hok : ∀ {ε ε' α : Type} (f : ε → ε') (a : α), (Except.ok a).mapError f = .ok a :=
    fun _ _ => rfl
  simp only [hpath, htext, hok, ← Module.ofSource_eq hcs, bind, Except.bind, pure, Except.pure]
  cases Module.ofSource text with
  | error message => rfl
  | ok body =>
    simp only [hok]
    cases resolveAll t hosts (t.entries.length + 1) [path.text] _ <;> rfl

end Typings
