import JvmCoverage.Document.Token

/-!
# Reading JSON texts

A `JsonTree` is a JSON text taken apart.  Numbers are recognized but not kept, and texts may be
without content (see `Token`).  `JsonTree.parse` works on an explicit stack of open lists and
records, so texts may be nested to any depth.
-/

namespace JvmCoverage

/-- A JSON text taken apart. -/
inductive JsonTree where
  | null
  | flag (value : Bool)
  | number
  | text (content : Option String)
  | list (items : List JsonTree)
  | record (fields : List (Option String × JsonTree))

namespace JsonTree

/-- A list or record that is not closed yet, with its parts so far, last first. -/
inductive Open where
  | list (items : List JsonTree)
  /-- `key` is that of the field whose value is being read. -/
  | record (fields : List (Option String × JsonTree)) (key : Option String)

/-- What may come next. -/
inductive Expected where
  /-- A value, or the end of the list that has just been opened. -/
  | item (closable : Bool)
  /-- A key, or the end of the record that has just been opened. -/
  | key (closable : Bool)
  | colon
  /-- Whatever may follow a value. -/
  | after (value : JsonTree)

/-- What has been read. -/
structure Progress where
  opened : List Open
  expected : Expected

/-- Reads a value, or the beginning of one. -/
def readItem (closable : Bool) (opened : List Open) : Token → Option Progress
  | .null => some ⟨opened, .after null⟩
  | .flag value => some ⟨opened, .after (flag value)⟩
  | .number => some ⟨opened, .after number⟩
  | .text content => some ⟨opened, .after (text content)⟩
  | .openList => some ⟨.list [] :: opened, .item true⟩
  | .openRecord => some ⟨.record [] none :: opened, .key true⟩
  | .closeList =>
    match closable, opened with
    | true, .list _ :: opened => some ⟨opened, .after (list [])⟩
    | _, _ => none
  | _ => none

/-- Reads a key, or the end of an empty record. -/
def readKey (closable : Bool) (opened : List Open) (token : Token) : Option Progress :=
  match token, opened with
  | .text key, .record fields _ :: opened => some ⟨.record fields key :: opened, .colon⟩
  | .closeRecord, .record _ _ :: opened =>
    if closable then some ⟨opened, .after (record [])⟩ else none
  | _, _ => none

/-- Reads what follows a value. -/
def readAfter (value : JsonTree) (opened : List Open) (token : Token) : Option Progress :=
  match token, opened with
  | .comma, .list items :: opened => some ⟨.list (value :: items) :: opened, .item false⟩
  | .comma, .record fields key :: opened =>
    some ⟨.record ((key, value) :: fields) none :: opened, .key false⟩
  | .closeList, .list items :: opened => some ⟨opened, .after (list (value :: items).reverse)⟩
  | .closeRecord, .record fields key :: opened =>
    some ⟨opened, .after (record ((key, value) :: fields).reverse)⟩
  | _, _ => none

/-- Reads one more token. -/
def step (p : Progress) (token : Token) : Option Progress :=
  match p.expected with
  | .item closable => readItem closable p.opened token
  | .key closable => readKey closable p.opened token
  | .colon => if token = .colon then some ⟨p.opened, .item false⟩ else none
  | .after value => readAfter value p.opened token

/-- The value at the end of the tokens. -/
def finish (p : Progress) : Option JsonTree :=
  match p.expected, p.opened with
  | .after value, [] => some value
  | _, _ => none

/-- The value that `source` is the JSON text of. -/
def parse (source : String) : Option JsonTree := do
  let tokens ← Token.scan source
  let p ← tokens.foldlM step ⟨[], .item false⟩
  finish p

/-! ## Parts -/

/-- The content of a text. -/
def text? : JsonTree → Option String
  | text content => content
  | _ => none

/-- A truth value. -/
def flag? : JsonTree → Option Bool
  | flag value => some value
  | _ => none

/-- A list of texts. -/
def texts? : JsonTree → Option (List String)
  | list items => items.mapM text?
  | _ => none

/-- A text, or nothing for `null`. -/
def optionalText? : JsonTree → Option (Option String)
  | null => some none
  | tree => tree.text?.map some

/-- The fields of a record, or of a list with the values of fields in the order of `names`.  All
keys must have content, and none of `names` may occur twice. -/
def fields? (names : List String) : JsonTree → Option (List (String × JsonTree))
  | record fields => do
    let fields ← fields.mapM fun (key, value) => key.map fun key => (key, value)
    if names.all fun name => fields.countP (·.1 == name) ≤ 1 then some fields else none
  | list items => if items.length ≤ names.length then some (names.zip items) else none
  | _ => none

/-- What `f` makes of the field called `name`, or `default` if there is no such field. -/
def field? {α : Type} (fields : List (String × JsonTree)) (name : String)
    (f : JsonTree → Option α) (default : Option α) : Option α :=
  match fields.find? (·.1 == name) with
  | some (_, value) => f value
  | none => default

end JsonTree

end JvmCoverage
