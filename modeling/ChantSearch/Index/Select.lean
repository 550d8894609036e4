import ChantSearch.Index.Basic
import ChantSearch.Index.Status
import ChantSearch.Json.Reader

/-!
# The select exchange

The parameters that carry a request to the index, and the reading of its reply: an object
with a response that tells the number of matches and lists the records returned.
-/

namespace ChantSearch.Index

open Json (Value)

def Request.parameters (request : Request) : List (String × String) :=
  [("q", request.query), ("wt", "json"), ("df", "default_search")] ++
    (request.start?.toList.map fun n => ("start", toString n)) ++
    (request.rows?.toList.map fun n => ("rows", toString n)) ++
    request.sort?.toList.map fun order => ("sort", order)

/-- What a reply lacks. -/
inductive ReplyFault where
  | noResponse
  | noCount
  | countNoNumber
  | noDocs
  | docsNoArray
  | docNoObject
  deriving DecidableEq, Repr

def ReplyFault.message : ReplyFault → String
  | noResponse => "response expected on data"
  | noCount => "numFound expected on response"
  | countNoNumber => "numFound expected to be a number"
  | noDocs => "docs expected on response"
  | docsNoArray => "docs expected to be an array"
  | docNoObject => "doc expected to be an object"

/-- Why a select exchange failed. -/
inductive SelectError where
  | unreachable (reason : String)
  | notJson (reason : String)
  | status (code : Nat) (reply : String)
  | invalidReply (fault : ReplyFault)
  deriving DecidableEq, Repr

namespace SelectError

def kind : SelectError → String
  | unreachable _ => "ReqwestError"
  | notJson _ => "InvalidJson"
  | status _ _ => "Status"
  | invalidReply _ => "InvalidResponse"

def message : SelectError → String
  | unreachable reason => s!"ReqwestError: {reason}"
  | notJson reason => s!"InvalidJson: {reason}"
  | status code reply => "Status " ++ statusLine code ++ ": " ++ reply
  | invalidReply fault => s!"InvalidResponse: {fault.message}"

def toServiceError : SelectError → ServiceError
  | unreachable reason => .unavailable reason
  | notJson reason => .invalidResponse reason
  | status code reply => .status code reply
  | invalidReply fault => .invalidResponse fault.message

/-- The error of an exchange with an address that no request can be sent to, for the reason that the
client gives. -/
def refusedAddress (reason : String) : SelectError :=
  .unreachable reason

end SelectError

/-- A part of a reply, or the fault of lacking it. -/
def demand {α : Type} (fault : ReplyFault) (part? : Option α) : Except ReplyFault α :=
  match part? with
  | some part => .ok part
  | none => .error fault

/-- The results that a reply holds. Other members of it do not matter. -/
def readReply (reply : Value) : Except ReplyFault Results := do
  let response ← demand .noResponse (reply.member? "response")
  let count ← demand .noCount (response.member? "numFound")
  let hits ← demand .countNoNumber count.toNat?
  let docs ← demand .noDocs (response.member? "docs")
  let items ← demand .docsNoArray docs.toItems?
  let docs ← items.mapM fun item => demand .docNoObject item.toMembers?
  pure ⟨docs, hits⟩

/-- The results in the text of a reply. The reason is for a text that is no JSON value: what the
reader of JSON has to say about it, which may be nothing. -/
def parseReply (text : String) (reason : String := "") : Except SelectError Results :=
  match Json.parse text with
  | none => .error (.notJson reason)
  | some reply => (readReply reply).mapError .invalidReply

end ChantSearch.Index
