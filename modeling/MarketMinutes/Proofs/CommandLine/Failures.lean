import MarketMinutes.Proofs.CommandLine.Aggregate
import MarketMinutes.Proofs.Storage.Loading

/-!
# Commands that fail

A bad line ends a run where it stands: the files hold what they would hold if
the feed ended before it. A command that fails before it opens what it writes
to leaves the tree as it was.
-/

namespace MarketMinutes

/-! ## Lines that are no records -/

/-- The line is no text, or a text that is neither blank nor a record of the kind. -/
def Record.badLine (kind : Kind) (line : Bytes) : Bool :=
  match Bytes.text? line with
  | none => true
  | some text => !Text.allBlank text && (parse? text).all (·.kind ≠ kind)

theorem Record.badLine_eq (kind : Kind) (line : Bytes) :
    badLine kind line =
      match LineContent.ofLine parse? line with
      | .notText => true
      | .blank => false
      | .garbled => true
      | .value r => decide (r.kind ≠ kind) := by
  unfold badLine LineContent.ofLine
  cases Bytes.text? line with
  | none => rfl
  | some text =>
    cases hb : Text.allBlank text <;> cases hp : parse? text <;> simp [hb, hp]

namespace Collection

end Collection

namespace Program

variable {t made : FileTree} {configPath output : String} {config : Config} {feed : Location} {place : Kind → Location}

/-! ## Failures before anything is opened -/

namespace Ready

/-- The same feed cut short, under the same configuration. -/
theorem cut (h : Ready t configPath config feed made place) (hconfig : t.find? configPath ≠ some feed)
    (hfeed : (t.content? feed).isSome = true) (content : Bytes) :
    Ready (t.put feed content) configPath config feed (made.put feed content) place where
  loads := (Config.load_congr (FileTree.lookup?_put hfeed content hconfig)).trans h.loads
  found := (FileTree.find?_put hfeed content config.input).trans h.found
  usable := by
    refine ⟨?_, fun kind => (FileTree.SameWays.put ..).writable (h.usable.places kind)⟩
    rw [FileTree.makeDirectories_put hfeed, h.usable.making]
  apart := h.apart

end Ready

end Program
end MarketMinutes
