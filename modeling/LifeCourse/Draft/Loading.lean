import LifeCourse.Document.Json.Decoder
import LifeCourse.Document.Ron.Decoder
import LifeCourse.Draft.Build
import LifeCourse.Draft.Reading
import LifeCourse.Failure

/-!
# Loading rulesets

A ruleset comes from a JSON text, a RON text, or a JSON value that is part of something
larger.  Overlays are loaded in the same way and laid over it one after another.
-/

namespace LifeCourse

open Document

/-- The ruleset of a draft that was read from a document, if it could be read. -/
def Ruleset.ofDraft : Except Defect Draft → Except Failure Ruleset
  | .error defect => .error (.malformed (.defect defect))
  | .ok draft =>
    match draft.build with
    | .error fault => .error (.malformed (.fault fault))
    | .ok rules => .ok rules

/-- The ruleset of a JSON text. -/
def Ruleset.ofJson (text : String) : Except Failure Ruleset :=
  Ruleset.ofDraft (Json.readText Draft.read text)

/-- The ruleset of a JSON value. -/
def Ruleset.ofValue (value : Json) : Except Failure Ruleset :=
  Ruleset.ofDraft (Json.readValue Draft.read value)

/-- The ruleset of a RON text. -/
def Ruleset.ofRon (text : String) : Except Failure Ruleset :=
  Ruleset.ofDraft (Ron.readText Draft.read text)

/-- The rulesets that can come about: loaded ones, the one without entities, and those
laid over each other. -/
inductive Ruleset.Loaded : Ruleset → Prop where
  | standard : Loaded .standard
  | build {draft : Draft} {rules : Ruleset} (h : draft.build = .ok rules) : Loaded rules
  | merge {base overlay : Ruleset} (hbase : Loaded base) (hoverlay : Loaded overlay) :
      Loaded (base.merge overlay)

end LifeCourse
