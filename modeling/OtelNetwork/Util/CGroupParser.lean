import Mathlib

/-!
# `CGroupParser`

A model of `util/cgroup_parser.{h,cc}` and the parsing helpers of `util/parser_utils.h` it uses.
The parser reads a cgroup name through one read head, which only moves forward: the state holds
the name and the characters from the read head to the end. Each `parse_*` method is a program of
`StateM` returning its `bool`; the `std::string *` a helper appends to is a `Field` of the
`CGroupInfo` being built.

`parse_cgroup` tries the five formats in turn on the shared read head, without moving it back
after a format fails, and a format that fails halfway keeps what it appended, except that
`parse_container_id` clears the container id.

Characters are Lean characters; `isxdigit` accepts the ASCII hex digits. Log calls are left out.
-/

namespace OtelNetwork

/-- `CGroupInfo`. -/
structure CGroupInfo where
  containerId : List Char := []
  runtime : List Char := []
  podId : List Char := []
  qos : List Char := []
  service : List Char := []
  valid : Bool := false
deriving DecidableEq, Repr

namespace CGroupParser

/-- The string fields of `CGroupInfo` that the helpers append to. -/
inductive Field where
  | containerId
  | runtime
  | podId
  | qos
  | service
deriving DecidableEq, Repr

/-- The field `f` of `info`. -/
def fieldOf (info : CGroupInfo) : Field → List Char
  | .containerId => info.containerId
  | .runtime => info.runtime
  | .podId => info.podId
  | .qos => info.qos
  | .service => info.service

/-- `*s += cs` for the field `f`. -/
def appendField (info : CGroupInfo) : Field → List Char → CGroupInfo
  | .containerId, cs => { info with containerId := info.containerId ++ cs }
  | .runtime, cs => { info with runtime := info.runtime ++ cs }
  | .podId, cs => { info with podId := info.podId ++ cs }
  | .qos, cs => { info with qos := info.qos ++ cs }
  | .service, cs => { info with service := info.service ++ cs }

/-- The parser: the name, the characters from `read_head_` to the end, and `info_`. -/
structure State where
  name : List Char
  readHead : List Char
  info : CGroupInfo
deriving DecidableEq, Repr

abbrev Parser := StateM State

/-! ## `parser_utils.h` -/

/-- `isxdigit`. -/
def isHexDigit (c : Char) : Bool :=
  c.isDigit || (decide ('a' ≤ c) && decide (c ≤ 'f')) || (decide ('A' ≤ c) && decide (c ≤ 'F'))

/-- `peek`: the next character, if any. -/
def peek : Parser (Option Char) := do
  return (← get).readHead.head?

/-- `consume(cur, end)`: one character, and none at the end. -/
def consume : Parser Unit :=
  modify fun s => { s with readHead := s.readHead.drop 1 }

/-- Appends to the field the optional output pointer designates. -/
def store (out : Option Field) (cs : List Char) : Parser Unit :=
  match out with
  | none => pure ()
  | some f => modify fun s => { s with info := appendField s.info f cs }

/-- `parse_match(cur, end, s, out)`: consumes `str` if the read head starts with it. -/
def parseMatchStr (str : List Char) (out : Option Field := none) : Parser Bool := do
  let s ← get
  if str.isPrefixOf s.readHead then
    set { s with readHead := s.readHead.drop str.length }
    store out str
    return true
  else
    return false

/-- `parse_match(cur, end, pred, out)`: consumes the next character if it satisfies `pred`. -/
def parseMatchPred (pred : Char → Bool) (out : Option Field := none) : Parser Bool := do
  match (← get).readHead with
  | c :: _ =>
    if pred c then
      store out [c]
      consume
      return true
    else
      return false
  | [] => return false

/-- The loop of `parse_token` over the characters `cs`: whether the token came, the characters
    before it, and the characters after it. -/
def tokenLoop (token : Char) : List Char → Bool × List Char × List Char
  | [] => (false, [], [])
  | p :: cs =>
    if p = token then (true, [], cs)
    else
      let (found, before, rest) := tokenLoop token cs
      (found, p :: before, rest)

/-- `parse_token(cur, end, token, s)`: consumes through the first `token`, storing the characters
    before it; at the end of the name it has consumed and stored everything. -/
def parseToken (token : Char) (out : Option Field := none) : Parser Bool := do
  let (found, before, rest) := tokenLoop token (← get).readHead
  modify fun s => { s with readHead := rest }
  store out before
  return found

/-! ## `cgroup_parser.cc` -/

/-- `parse_qos`. -/
def parseQos : Parser Bool := do
  if ← parseMatchStr "guaranteed".toList (some .qos) then return true
  if ← parseMatchStr "besteffort".toList (some .qos) then return true
  if ← parseMatchStr "burstable".toList (some .qos) then return true
  return false

/-- `parse_uid_group(count)`: `count` hex digits, appended to the pod id. -/
def parseUidGroup : Nat → Parser Bool
  | 0 => return true
  | n + 1 => do
    if ← parseMatchPred isHexDigit (some .podId) then parseUidGroup n else return false

/-- The loop of `parse_uid` over the group sizes `8, 4, 4, 4, 12`. -/
def parseUidGroups : List Nat → Parser Bool
  | [] => return true
  | ii :: rest => do
    if !(← parseUidGroup ii) then return false
    if ii != 12 then
      let some c ← peek | return false
      -- `_` (systemd), `-` (cgroupfs) or no separator; the pod id gets the canonical `-`
      if c == '-' || c == '_' then consume
      store (some .podId) ['-']
    parseUidGroups rest

/-- `parse_uid`. -/
def parseUid : Parser Bool := parseUidGroups [8, 4, 4, 4, 12]

/-- The loop of `parse_container_id`: each of `n` characters must be a hex digit; on a failure
    the container id is cleared. -/
def parseContainerIdLoop : Nat → Parser Bool
  | 0 => return true
  | n + 1 => do
    if ← parseMatchPred isHexDigit (some .containerId) then parseContainerIdLoop n
    else
      modify fun s => { s with info := { s.info with containerId := [] } }
      return false

/-- `parse_container_id`: 64 hex digits. -/
def parseContainerId : Parser Bool := parseContainerIdLoop 64

/-- `parse_pod_id`. -/
def parsePodId : Parser Bool := do
  if !(← parseMatchStr "pod".toList) then return false
  parseUid

/-- `parse_runtime(token)`. -/
def parseRuntime (token : Char) : Parser Bool := parseToken token (some .runtime)

/-- `parse_service`: the name up to a `.service` suffix, wherever the read head stands. -/
def parseService : Parser Bool := do
  let s ← get
  if ".service".toList.isSuffixOf s.name then
    set { s with info := { s.info with service := s.name.take (s.name.length - 8) } }
    return true
  else
    return false

/-- `parse_systemd`. Once the quality of service is read the format is valid; the pod id, the
    runtime and the container id are optional. -/
def parseSystemd : Parser Bool := do
  if !(← parseMatchStr "kubepods-".toList) then return false
  if !(← parseQos) then return false
  let _ ← parseToken '-'
  if !(← parsePodId) then return true
  let _ ← parseToken '-'
  if !(← parseRuntime ':') then return true
  let _ ← parseContainerId
  return true

/-- `parse_cri`. -/
def parseCri : Parser Bool := do
  if !(← parseMatchStr "cri-".toList) then return false
  if !(← parseRuntime '-') then return false
  parseContainerId

/-- `parse_cgroup`: the first format that parses, from where the previous ones left the read
    head. -/
def parseCgroup : Parser Bool := do
  if ← parseSystemd then return true
  if ← parseCri then return true
  if ← parsePodId then return true
  if ← parseContainerId then return true
  if ← parseService then return true
  return false

end CGroupParser

/-- `CGroupParser(cgroup_name).get()`. -/
def CGroupParser.parse (name : List Char) : CGroupInfo :=
  let (valid, s) := CGroupParser.parseCgroup.run { name, readHead := name, info := {} }
  { s.info with valid }

end OtelNetwork
