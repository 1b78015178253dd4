import LifeCourse.Draft.Reading
import LifeCourse.Person

/-!
# Requests

A request says what a life starts with: a selection of talents, values for stats, the
achievements of earlier lives, and perhaps a seed that makes the life repeatable.

Values may be given under any name.  Those of the stats count, except for age, whose
clock is not the caller's; they are given out by ascending code.
-/

namespace LifeCourse

open Document

/-- What a life starts with. -/
structure Request where
  talents : List Int
  properties : Table String Int
  /-- The achievements of earlier lives, one group for each life. -/
  achieved : List (List Int)
  seed : Option Nat

namespace Request

/-- The request that asks for nothing. -/
def empty : Request :=
  ⟨[], .empty, [], none⟩

/-- The request with another selection of talents. -/
def withTalents (request : Request) (ids : List Int) : Request :=
  { request with talents := ids }

/-- The request with a value under a name. -/
def withProperty (request : Request) (code : String) (value : Int) : Request :=
  { request with properties := request.properties.insert code value }

/-- The request with values under several names. -/
def withProperties (request : Request) (values : List (String × Int)) : Request :=
  values.foldl (fun request entry => request.withProperty entry.1 entry.2) request

/-- The request with other achievements of earlier lives. -/
def withAchieved (request : Request) (groups : List (List Int)) : Request :=
  { request with achieved := groups }

/-- The request with a seed. -/
def withSeed (request : Request) (seed : Nat) : Request :=
  { request with seed := some seed }

/-- The shape of a request. -/
def shape : Shape :=
  ⟨"Request", plainFields ["talents", "properties", "achieved", "seed"], true⟩

/-- Reads a field of a request. -/
def field {δ : Type → Type} [Decoder δ] (name : String) (request : Request) : δ Request := do
  match name with
  | "talents" => return { request with talents := ← Decoder.list Decoder.int32 }
  | "properties" =>
    return { request with properties := .ofList (← Decoder.table Decoder.int32) }
  | "achieved" =>
    return { request with achieved := ← Decoder.list (Decoder.list Decoder.int32) }
  | "seed" => return { request with seed := ← Decoder.option Decoder.count }
  | _ => return request

/-- Reads a request. -/
def read {δ : Type → Type} [Decoder δ] : δ Request :=
  Decoder.record shape field empty

/-- The person with the values that a request gives out. -/
def allocate (request : Request) (person : Person) : Person :=
  request.properties.entries.foldl (fun person entry =>
    match Stat.ofCode? entry.1 with
    | none => person
    | some .age => person
    | some stat => person.allocate stat entry.2) person

/-- The person that a request starts with. -/
def person (request : Request) (settings : Settings) : Person :=
  (request.allocate (.unborn settings)).setHistory request.achieved

/-- The source that a request asks for; without a seed the one that is at hand. -/
def source (request : Request) (atHand : Source) : Source :=
  match request.seed with
  | some seed => .seeded (UInt64.ofNat seed)
  | none => atHand

end Request
end LifeCourse
