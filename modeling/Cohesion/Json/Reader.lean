import Cohesion.Json.Token

/-!
Readers of JSON values of a known shape. A reader takes token after token, checks types on the
way and stops at the first defect, so no value of another shape is ever built.
-/

namespace Cohesion.Json

/-- The defect of a token where a value of another type was expected. A whole value is mistyped,
a broken one keeps its own defect, and anything else is no value. -/
def Token.mistaken : Token → Defect
  | text (.error defect) => defect
  | number (.error defect) => defect
  | word (.error defect) => defect
  | text (.ok _) | number (.ok _) | word (.ok _) | openObject | openArray => .mistyped
  | closeObject | closeArray | comma | colon | unknown => .malformed

/-- A reader of one value: what the first token does, and what each later token does to the state.
A step leads to another state or completes the value. -/
structure Reader (Value : Type) where
  State : Type
  start : Token → Except Defect (State ⊕ Value)
  step : State → Token → Except Defect (State ⊕ Value)

/-- Inside an array: after its opening, where an item is due, in an item, or after an item. Items
are kept last one first. -/
inductive ListState (ItemState Item : Type) where
  | opened
  | due (items : List Item)
  | inside (items : List Item) (state : ItemState)
  | after (items : List Item)

/-- Inside an object: after its opening, where a name, a colon or a value is due, in a value, or
after a value. Members are kept last one first. -/
inductive TableState (ValueState Value : Type) where
  | opened
  | nameDue (members : List (String × Value))
  | colonDue (members : List (String × Value)) (name : String)
  | valueDue (members : List (String × Value)) (name : String)
  | inside (members : List (String × Value)) (name : String) (state : ValueState)
  | after (members : List (String × Value))

namespace Reader

variable {Item Value : Type}

def text : Reader String where
  State := Empty
  start
    | .text outcome => outcome.map .inr
    | token => .error token.mistaken
  step state := nomatch state

def number : Reader Float where
  State := Empty
  start
    | .number outcome => outcome.map .inr
    | token => .error token.mistaken
  step state := nomatch state

def placeItem {ItemState : Type} (items : List Item) :
    ItemState ⊕ Item → ListState ItemState Item ⊕ List Item
  | .inl state => .inl (.inside items state)
  | .inr item => .inl (.after (item :: items))

def listOf (item : Reader Item) : Reader (List Item) where
  State := ListState item.State Item
  start
    | .openArray => .ok (.inl .opened)
    | token => .error token.mistaken
  step
    | .opened, .closeArray => .ok (.inr [])
    | .opened, token => (item.start token).map (placeItem [])
    | .due items, token => (item.start token).map (placeItem items)
    | .inside items state, token => (item.step state token).map (placeItem items)
    | .after items, .closeArray => .ok (.inr items.reverse)
    | .after items, .comma => .ok (.inl (.due items))
    | .after _, _ => .error .malformed

def placeMember {ValueState : Type} (members : List (String × Value)) (name : String) :
    ValueState ⊕ Value → TableState ValueState Value ⊕ List (String × Value)
  | .inl state => .inl (.inside members name state)
  | .inr value => .inl (.after ((name, value) :: members))

/-- An object with values of one shape. Members are given in the order of the text, and a name may
come more than once. -/
def tableOf (value : Reader Value) : Reader (List (String × Value)) where
  State := TableState value.State Value
  start
    | .openObject => .ok (.inl .opened)
    | token => .error token.mistaken
  step
    | .opened, .closeObject => .ok (.inr [])
    | .opened, .text outcome => outcome.map fun name => .inl (.colonDue [] name)
    | .opened, _ => .error .malformed
    | .nameDue members, .text outcome => outcome.map fun name => .inl (.colonDue members name)
    | .nameDue _, _ => .error .malformed
    | .colonDue members name, .colon => .ok (.inl (.valueDue members name))
    | .colonDue _ _, _ => .error .malformed
    | .valueDue members name, token => (value.start token).map (placeMember members name)
    | .inside members name state, token => (value.step state token).map (placeMember members name)
    | .after members, .closeObject => .ok (.inr members.reverse)
    | .after members, .comma => .ok (.inl (.nameDue members))
    | .after _, _ => .error .malformed

def resume (reader : Reader Value) :
    Except Defect (reader.State ⊕ Value) → List Token → Except Defect Value
  | .error defect, _ => .error defect
  | .ok (.inr value), [] => .ok value
  | .ok (.inr _), _ :: _ => .error .malformed
  | .ok (.inl _), [] => .error .ended
  | .ok (.inl state), token :: rest => reader.resume (reader.step state token) rest

def read (reader : Reader Value) (bytes : List UInt8) : Except Defect Value :=
  match tokens bytes with
  | [] => .error .ended
  | token :: rest => reader.resume (reader.start token) rest

end Reader

def bytesOf (text : String) : List UInt8 := text.toUTF8.data.toList

end Cohesion.Json
