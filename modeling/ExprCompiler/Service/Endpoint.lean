import ExprCompiler.Json.Reader
import ExprCompiler.Service.Handler

/-!
# The endpoint

One request a call, in the body of a `POST`. The body is one document with three fields and nothing
after it; a closing bracket after the document is not noticed.
-/

namespace ExprCompiler.Service

/-- Why a body is no request. -/
inductive Refusal where
  | malformed
  | unknownField (name : String)
  | trailingData
  | tooLarge

def Refusal.message : Refusal → String
  | .malformed => "invalid JSON"
  | .unknownField name => "json: unknown field " ++ Text.quote name
  | .trailingData => "invalid JSON: trailing data"
  | .tooLarge => "http: request body too large"

/-- How many bytes a body may have. -/
def maxBodyBytes : Nat := 1048576

/-- The characters that lie within a number of bytes behind those already kept, which are in
reverse, and whether there are more. -/
def clipTo (kept : List Char) (bytes : Nat) : List Char → List Char × Bool
  | [] => (kept.reverse, false)
  | c :: cs =>
    if bytes < c.utf8Size then (kept.reverse, true)
    else clipTo (c :: kept) (bytes - c.utf8Size) cs

/-- The characters that lie within a number of bytes, and whether there are more. -/
def clip (bytes : Nat) (cs : List Char) : List Char × Bool := clipTo [] bytes cs

/-- The fields of a request. -/
inductive RequestField where
  | id
  | tool
  | params
deriving DecidableEq, Repr

namespace RequestField

def all : List RequestField := [.id, .tool, .params]

def name : RequestField → String
  | .id => "id"
  | .tool => "tool"
  | .params => "params"

/-- A letter without its case; the long s is an s, and the sign for kelvin a k. -/
def foldCase (c : Char) : Char :=
  if c.toNat == 0x17f then 's' else if c.toNat == 0x212a then 'k' else c.toLower

/-- The field of a name in any case. -/
def ofName? (s : String) : Option RequestField :=
  all.find? fun f ↦ f.name == String.ofList (s.toList.map foldCase)

end RequestField

/-- Puts a value into a field. Nothing leaves a text as it is and empties the parameters; further
parameters are added to those that are there. -/
def Request.set (r : Request) (f : RequestField) (j : Json) : Except Refusal Request :=
  match f, j with
  | .id, .string s => .ok { r with id := s }
  | .id, .null => .ok r
  | .tool, .string s => .ok { r with tool := s }
  | .tool, .null => .ok r
  | .params, .object fields =>
    if Json.inRangeFields fields then .ok { r with arguments := r.arguments ++ fields }
    else .error .malformed
  | .params, .null => .ok { r with arguments := [] }
  | _, _ => .error .malformed

/-- A request from the fields of a document, in their order. -/
def Request.ofFields (r : Request) : List (String × Json) → Except Refusal Request
  | [] => .ok r
  | (name, j) :: rest =>
    match RequestField.ofName? name with
    | none => .error (.unknownField name)
    | some f => do Request.ofFields (← r.set f j) rest

def Request.ofJson : Json → Except Refusal Request
  | .null => .ok {}
  | .object fields => Request.ofFields {} fields
  | _ => .error .malformed

/-- Whether something follows a document. -/
def isTrailing (rest : List Char) : Bool :=
  match rest.dropWhile Json.isBlank with
  | [] => false
  | c :: _ => c != ']' && c != '\x7d'

/-- Reads the request in a body. -/
def readBody (body : List Char) : Except Refusal Request :=
  let (cs, more) := clip maxBodyBytes body
  match Json.readFirst cs with
  | .malformed => .error .malformed
  | .unfinished => .error (if more then .tooLarge else .malformed)
  | .complete j rest => do
    let r ← Request.ofJson j
    if isTrailing rest then throw .trailingData else return r

/-- A response as a document; what is empty is left out. -/
def Response.toJson (r : Response) : Json :=
  .object ([("id", .string r.id)]
    ++ (r.result.map fun d ↦ ("result", d.toJson)).toList
    ++ (if r.text.isEmpty then [] else [("string", .string r.text)])
    ++ (if r.error.isEmpty then [] else [("error", .string r.error)]))

/-- Whether a response can be written. -/
def Response.isWritable (r : Response) : Bool := (r.result.map Document.isWritable).getD true

/-- What the endpoint does with a call. -/
inductive Reply where
  | methodNotAllowed
  | refused (why : Refusal)
  | answered (r : Response)

namespace Reply

def status : Reply → Nat
  | .methodNotAllowed => 405
  | .refused _ => 400
  | .answered _ => 200

def contentType : Reply → String
  | .methodNotAllowed => "text/plain; charset=utf-8"
  | _ => "application/json"

/-- The body of a reply, which is empty if the response cannot be written. -/
def body : Reply → String
  | .methodNotAllowed => "method not allowed\n"
  | .refused why => (Json.object [("error", .string why.message)]).write ++ "\n"
  | .answered r => if r.isWritable then r.toJson.write ++ "\n" else ""

end Reply

/-- Answers a call with a method and a body, unless the process ends on the way. -/
def Handler.serve (h : Handler) (freshId method : String) (body : List Char) :
    Traced Event Fault Reply :=
  if method != "POST" then pure .methodNotAllowed
  else
    match readBody body with
    | .error why => pure (.refused why)
    | .ok r => do return .answered (← h.handle freshId r)

end ExprCompiler.Service
