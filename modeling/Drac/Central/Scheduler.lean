import Mathlib.Data.Rat.Floor
import Mathlib.Data.List.Sort
import Drac.Lib.Binary64
import Drac.Lib.JsText
import Drac.Lib.JsMap

/-
  The multi-node scheduler of the Central: from the compute nodes, their
  telemetry, the workloads (cameras with weights) and the previous plan, the plan
  of who records what.

  Correspondence (JavaScript ↔ Lean):
    `config.js`   resolveSchedulerConfig ↔ the same name
    `compute-nodes.js`   normalizeComputeNodes ↔ the same name
    `plan.js`   normalizeWorkloads, orderWorkloads, normalizeNodeStates, nodeHealth,
      normalizePrevious, pickTarget, place, release ↔ the same names; planAssignments ↔
      `planAssignments`, cut into its phases `retainOne`, `deferredOne`, `drainNode`, `issueTokens`

  A JavaScript value read through `String(..)` or `Number(..)` is given here as
  what that reading makes of it: an absent field or a `Number` that is not finite
  is `none`. Finite numbers are rationals, the doubles among them, and what is
  computed of them is rounded as doubles are (`Binary64`; a sum that overflows is over
  every capacity, as the infinity is). Tokens and epochs are naturals; an instant is its
  epoch milliseconds.
-/

namespace Drac.Central

open JsText Binary64

/-! ## Configuration -/

/-- The configuration as it comes, unchecked. -/
structure RawConfig where
  enabled : Option String := none
  leaseTtlSeconds : Option ℚ := none
  nodeDeadAfterSeconds : Option ℚ := none
  defaultNodeCapacity : Option ℚ := none
  drainBatch : Option ℚ := none
  maxWorkloads : Option ℚ := none

structure SchedulerConfig where
  enabled : Bool
  leaseTtlSeconds : ℚ
  nodeDeadAfterSeconds : ℚ
  defaultNodeCapacity : ℚ
  drainBatch : ℚ
  maxWorkloads : ℚ
  deriving DecidableEq

def defaultSchedulerConfig : SchedulerConfig where
  enabled := true
  leaseTtlSeconds := 120
  nodeDeadAfterSeconds := 180
  defaultNodeCapacity := 16
  drainBatch := 1
  maxWorkloads := 5000

def readBool (value : Option String) (fallback : Bool) : Bool :=
  match value with
  | none => fallback
  | some raw =>
    let text := (trim raw).toLower
    if text = "true" ∨ text = "1" then true
    else if text = "" then fallback
    else false

def readNumber (value : Option ℚ) (min : ℚ) : Option ℚ :=
  value.bind (fun n => if n < min then none else some n)

def resolveSchedulerConfig (input : RawConfig) : SchedulerConfig where
  enabled := readBool input.enabled defaultSchedulerConfig.enabled
  leaseTtlSeconds :=
    (readNumber input.leaseTtlSeconds 1).getD defaultSchedulerConfig.leaseTtlSeconds
  nodeDeadAfterSeconds :=
    (readNumber input.nodeDeadAfterSeconds 1).getD defaultSchedulerConfig.nodeDeadAfterSeconds
  defaultNodeCapacity :=
    (readNumber input.defaultNodeCapacity 0).getD defaultSchedulerConfig.defaultNodeCapacity
  drainBatch := (readNumber input.drainBatch 0).getD defaultSchedulerConfig.drainBatch
  maxWorkloads := (readNumber input.maxWorkloads 1).getD defaultSchedulerConfig.maxWorkloads

/-! ## The node registry -/

/-- A node's declared capacity: a number, or an object with `maxCameras`. -/
inductive RawCapacity where
  | number (n : ℚ)
  | object (maxCameras : Option ℚ)

structure RawNode where
  id : Option String
  role : Option String := none
  host : Option String := none
  label : Option String := none
  capacity : Option RawCapacity := none
  cameras : Option (List (Option String)) := none

structure ComputeNode where
  id : String
  role : String
  host : Option String
  label : Option String
  capacity : Option ℚ
  cameras : Option (List String)
  deriving DecidableEq

def normalizeCapacity : Option RawCapacity → Option ℚ
  | some (.number n) => if 0 ≤ n then some n else none
  | some (.object (some n)) => if 0 ≤ n then some n else none
  | _ => none

/-- A text trimmed, or nothing where that leaves it empty. -/
def nonEmpty (s : Option String) : Option String :=
  let t := trim (s.getD "")
  if t = "" then none else some t

def normalizeCameras (cameras : Option (List (Option String))) : Option (List String) :=
  cameras.bind (fun list =>
    let out := list.filterMap nonEmpty
    if out.isEmpty then none else some out)

def normalizeNode (raw : RawNode) : ComputeNode where
  id := trim (raw.id.getD "")
  role := (trim (raw.role.getD "")).toLower
  host := nonEmpty raw.host
  label := nonEmpty raw.label
  capacity := normalizeCapacity raw.capacity
  cameras := normalizeCameras raw.cameras

/-- `none` stands for an entry that is not an object, which is dropped. -/
def normalizeComputeNodes (input : List (Option RawNode)) : List ComputeNode :=
  input.filterMap (Option.map normalizeNode)

/-! ## Workloads -/

inductive RawWorkload where
  | bare (id : Option String)
  | object (id cameraId : Option String) (weight : Option ℚ)

structure Workload where
  id : String
  weight : ℚ
  deriving DecidableEq

def compareIds (a b : String) : Int :=
  if a = b then 0 else if lt a b then -1 else 1

def RawWorkload.read : RawWorkload → Workload
  | .bare id => ⟨trim (id.getD ""), 1⟩
  | .object id cameraId weight =>
    ⟨trim ((id <|> cameraId).getD ""),
      match weight with
      | some w => if 0 < w then w else 1
      | none => 1⟩

def readWorkload (byId : List (String × Workload)) (raw : RawWorkload) :
    List (String × Workload) :=
  let w := raw.read
  if w.id = "" then byId else JsMap.set byId w.id w

/-- The last entry of an id wins; empty ids are dropped. -/
def normalizeWorkloads (input : List RawWorkload) : List Workload :=
  JsMap.values (input.foldl readWorkload [])

def orderWorkloads (list : List Workload) : List Workload :=
  list.insertionSort (fun a b =>
    b.weight < a.weight ∨ (a.weight = b.weight ∧ compareIds a.id b.id ≤ 0))

/-! ## Node telemetry -/

/-- An instant as `toMs` reads it: `none` for what is no instant. -/
abbrev RawTime := Option ℚ

structure RawNodeState where
  status : Option String := none
  state : Option String := none
  lastSeenAt : Option RawTime := none
  lastHeartbeatAt : Option RawTime := none
  draining : Bool := false
  down : Bool := false

structure NodeState where
  lastSeenAt : Option ℚ
  draining : Bool
  down : Bool
  deriving DecidableEq

def normalizeNodeState (state : RawNodeState) : NodeState :=
  let status := (trim ((state.status <|> state.state).getD "")).toLower
  { lastSeenAt := ((state.lastSeenAt <|> state.lastHeartbeatAt).getD none)
    draining := state.draining || status = "draining"
    down := state.down || status = "down" || status = "dead" || status = "offline" }

def normalizeNodeStates (input : List (String × RawNodeState)) : List (String × NodeState) :=
  input.foldl (fun out entry =>
    let id := trim entry.1
    if id = "" then out else JsMap.set out id (normalizeNodeState entry.2)) []

inductive Health where
  | alive
  | unknown
  | draining
  | dead
  deriving DecidableEq, Repr

def nodeHealth (state : Option NodeState) (nowMs : ℚ) (config : SchedulerConfig) : Health :=
  match state with
  | none => .unknown
  | some s =>
    if s.down then .dead
    else if s.lastSeenAt.any (fun seen => config.nodeDeadAfterSeconds < fl (minus nowMs seen / 1000)) then
      .dead
    else if s.draining then .draining
    else if s.lastSeenAt.isNone then .unknown
    else .alive

/-! ## Plans -/

inductive Reason where
  | new
  | nodeRemoved
  | nodeDead
  | capacity
  | draining
  | noCapacity
  deriving DecidableEq, Repr

/-- A node in the course of a planning. -/
structure PlanNode where
  id : String
  role : String
  declaredCapacity : Option ℚ
  capacity : ℚ
  health : Health
  load : ℚ
  cameras : List String
  deriving DecidableEq

structure Assignment where
  cameraId : String
  nodeId : String
  weight : ℚ
  token : Nat
  leaseExpiresAt : Int
  deriving DecidableEq

structure Unassigned where
  cameraId : String
  weight : ℚ
  reason : Reason
  previousNodeId : Option String
  deriving DecidableEq

structure Migration where
  cameraId : String
  fromNode : String
  toNode : String
  reason : Reason
  deriving DecidableEq

structure Revocation where
  cameraId : String
  nodeId : String
  token : Option Nat
  reason : Reason
  deriving DecidableEq

structure PlanStats where
  nodes : Nat
  alive : Nat
  unknown : Nat
  draining : Nat
  dead : Nat
  workloads : Nat
  assigned : Nat
  unassigned : Nat
  migrations : Nat
  revoked : Nat
  totalWeight : ℚ
  deriving DecidableEq

structure Plan where
  version : Nat
  installationId : Option String
  generatedAt : Int
  epoch : Nat
  nextToken : Nat
  leaseTtlSeconds : ℚ
  nodes : List PlanNode
  assignments : List Assignment
  unassigned : List Unassigned
  migrations : List Migration
  revoked : List Revocation
  stats : PlanStats
  deriving DecidableEq

/-! ## The previous assignment -/

structure RawAssignment where
  cameraId : Option String
  id : Option String := none
  nodeId : Option String
  token : Option Nat := none

/-- What `planAssignments` accepts as `previous`. -/
inductive RawPrevious where
  | absent
  | list (assignments : List RawAssignment)
  | plan (assignments : List RawAssignment) (nextToken epoch : Option Nat)
  | map (nodeOf : List (String × Option String))

def Plan.asPrevious (p : Plan) : RawPrevious :=
  .plan (p.assignments.map (fun a =>
    { cameraId := some a.cameraId, nodeId := some a.nodeId, token := some a.token }))
    (some p.nextToken) (some p.epoch)

structure PreviousEntry where
  nodeId : String
  token : Option Nat
  deriving DecidableEq

/-- What is read of the previous plan. -/
structure Previous where
  byCamera : List (String × PreviousEntry)
  nextToken : Nat
  epoch : Nat

def positive (n : Option Nat) : Option Nat := n.filter (0 < ·)

def readAssignment (byCamera : List (String × PreviousEntry)) (raw : RawAssignment) :
    List (String × PreviousEntry) :=
  let cameraId := trim ((raw.cameraId <|> raw.id).getD "")
  let nodeId := trim (raw.nodeId.getD "")
  if cameraId = "" ∨ nodeId = "" then byCamera
  else JsMap.set byCamera cameraId ⟨nodeId, positive raw.token⟩

def readNodeOf (byCamera : List (String × PreviousEntry)) (entry : String × Option String) :
    List (String × PreviousEntry) :=
  let cameraId := trim entry.1
  let nodeId := trim (entry.2.getD "")
  if cameraId = "" ∨ nodeId = "" then byCamera
  else JsMap.set byCamera cameraId ⟨nodeId, none⟩

/-- The mark raised above every token the previous assignment carries. -/
def raiseNextToken (nextToken : Nat) (byCamera : List (String × PreviousEntry)) : Nat :=
  (JsMap.values byCamera).foldl (fun next entry =>
    match entry.token with
    | some token => if next ≤ token then token + 1 else next
    | none => next) nextToken

def normalizePrevious : RawPrevious → Previous
  | .absent => ⟨[], 0, 0⟩
  | .list assignments =>
    let byCamera := assignments.foldl readAssignment []
    ⟨byCamera, raiseNextToken 0 byCamera, 0⟩
  | .plan assignments nextToken epoch =>
    let byCamera := assignments.foldl readAssignment []
    ⟨byCamera, raiseNextToken ((positive nextToken).getD 0) byCamera, (positive epoch).getD 0⟩
  | .map nodeOf =>
    let byCamera := nodeOf.foldl readNodeOf []
    ⟨byCamera, raiseNextToken 0 byCamera, 0⟩

/-! ## Placing workloads on nodes -/

def isPlaceable (node : PlanNode) : Bool := node.health = .alive || node.health = .unknown

def canRetain (node : PlanNode) : Bool := node.health ≠ .dead

/-- A workload in the course of a planning. -/
structure PlanRecord where
  id : String
  weight : ℚ
  nodeId : Option String
  token : Option Nat
  previousNodeId : Option String
  previousToken : Option Nat
  reason : Option Reason

/-- The state of a planning: the nodes with what they carry, the records by
camera, and the records that wait for a place. -/
structure Placement where
  nodes : List PlanNode
  records : List PlanRecord
  deferred : List PlanRecord

/-- One turn of the search for a target: the best node so far with its projected
utilisation, and the next node. -/
def betterTarget (weight : ℚ) (best : Option (PlanNode × ℚ)) (node : PlanNode) :
    Option (PlanNode × ℚ) :=
  if ¬ isPlaceable node then best
  else
    let projected := plus node.load weight
    if node.capacity < projected then best
    else
      let score := fl (projected / node.capacity)
      match best with
      | none => some (node, score)
      | some (_, bestScore) => if score < bestScore then some (node, score) else best

/-- The node with the least projected utilisation that has room; the first of
equals. -/
def pickTarget (nodes : List PlanNode) (weight : ℚ) : Option PlanNode :=
  (nodes.foldl (betterTarget weight) none).map Prod.fst

def updateNode (nodes : List PlanNode) (id : String) (f : PlanNode → PlanNode) : List PlanNode :=
  nodes.map (fun node => if node.id = id then f node else node)

def updateRecord (records : List PlanRecord) (id : String) (f : PlanRecord → PlanRecord) :
    List PlanRecord :=
  records.map (fun record => if record.id = id then f record else record)

def PlanNode.add (node : PlanNode) (record : PlanRecord) : PlanNode :=
  { node with load := plus node.load record.weight, cameras := node.cameras ++ [record.id] }

def PlanNode.remove (node : PlanNode) (record : PlanRecord) : PlanNode :=
  { node with load := minus node.load record.weight, cameras := node.cameras.erase record.id }

/-- `place`: the node takes the record, and the record is at the node. -/
def place (st : Placement) (nodeId : String) (record : PlanRecord) : Placement :=
  { st with
    nodes := updateNode st.nodes nodeId (·.add record)
    records := updateRecord st.records record.id (fun r => { r with nodeId := some nodeId }) }

def release (st : Placement) (nodeId : String) (record : PlanRecord) : Placement :=
  { st with
    nodes := updateNode st.nodes nodeId (·.remove record)
    records := updateRecord st.records record.id (fun r => { r with nodeId := none }) }

def findNode (nodes : List PlanNode) (id : String) : Option PlanNode :=
  nodes.find? (fun node => node.id = id)

def newRecord (previous : Previous) (workload : Workload) : PlanRecord :=
  let prev := JsMap.get? previous.byCamera workload.id
  { id := workload.id
    weight := workload.weight
    nodeId := none
    token := none
    previousNodeId := prev.map (·.nodeId)
    previousToken := prev.bind (·.token)
    reason := none }

/-- Phase 1 for one workload: it stays on its node where that can keep it, and
waits for a place otherwise. -/
def retainOne (previous : Previous) (st : Placement) (workload : Workload) : Placement :=
  let record := newRecord previous workload
  let defer (reason : Reason) : Placement :=
    let waiting := { record with reason := some reason }
    { st with records := st.records ++ [waiting], deferred := st.deferred ++ [waiting] }
  match JsMap.get? previous.byCamera workload.id with
  | none => defer .new
  | some prev =>
    match findNode st.nodes prev.nodeId with
    | none => defer .nodeRemoved
    | some node =>
      if ¬ canRetain node then defer .nodeDead
      else if node.capacity < plus node.load record.weight then defer .capacity
      else place { st with records := st.records ++ [record] } node.id record

/-- Phase 2 for one waiting record: the best node with room, or none. -/
def deferredOne (st : Placement) (record : PlanRecord) : Placement :=
  match pickTarget st.nodes record.weight with
  | none => st
  | some target => place st target.id record

/-- Phase 3 on one draining node, over the cameras it had: at most `drainBatch`
of them move, and those with no destination stay. -/
def drainCameras (config : SchedulerConfig) (nodeId : String) :
    List String → Nat → Placement → Placement
  | [], _, st => st
  | cameraId :: rest, moved, st =>
    if config.drainBatch ≤ moved then st
    else
      match st.records.find? (fun r => r.id = cameraId) with
      | none => drainCameras config nodeId rest moved st
      | some record =>
        match pickTarget st.nodes record.weight with
        | none => drainCameras config nodeId rest moved st
        | some target =>
          let released := release st nodeId record
          let placed := place released target.id record
          let marked := { placed with
            records := updateRecord placed.records record.id
              (fun r => { r with reason := some .draining }) }
          drainCameras config nodeId rest (moved + 1) marked

def drainNode (config : SchedulerConfig) (st : Placement) (nodeId : String) : Placement :=
  match findNode st.nodes nodeId with
  | none => st
  | some node =>
    if node.health ≠ .draining then st
    else drainCameras config nodeId node.cameras 0 st

/-! ## Tokens -/

/-- A record whose camera stays on the node that holds its token. -/
def sameOwner (record : PlanRecord) : Bool :=
  record.previousNodeId = record.nodeId && record.previousToken.isSome

/-- Phase 4: a retained record keeps its token, every other takes the next. -/
def issueTokens : Nat → List PlanRecord → List PlanRecord × Nat
  | next, [] => ([], next)
  | next, record :: rest =>
    if sameOwner record then
      let (issued, last) := issueTokens next rest
      ({ record with token := record.previousToken } :: issued, last)
    else
      let (issued, last) := issueTokens (next + 1) rest
      ({ record with token := some next } :: issued, last)

/-! ## Planning -/

structure PlanInput where
  installationId : Option String := none
  config : RawConfig := {}
  now : RawTime
  nodeStates : List (String × RawNodeState) := []
  nodes : List (Option RawNode)
  workloads : List RawWorkload

inductive PlanError where
  /-- `planAssignments: now é obrigatório (o algoritmo não lê o relógio).` -/
  | nowRequired
  /-- `toISOString` of an instant outside the range of dates. -/
  | invalidDate
  deriving DecidableEq

/-- `new Date(ms).toISOString()`: the instant it names, fractions cut off. -/
def toISOString (ms : ℚ) : Except PlanError Int :=
  let t := if 0 ≤ ms then ⌊ms⌋ else ⌈ms⌉
  if t.natAbs ≤ 8640000000000000 then .ok t else .error .invalidDate

def sortedById (records : List PlanRecord) : List PlanRecord :=
  records.insertionSort (fun a b => compareIds a.id b.id ≤ 0)

def addNode (config : SchedulerConfig) (states : List (String × NodeState)) (nowMs : ℚ)
    (nodes : List PlanNode) (raw : ComputeNode) : List PlanNode :=
  if raw.id = "" ∨ nodes.any (fun node => node.id = raw.id) then nodes
  else nodes ++ [{
    id := raw.id
    role := raw.role
    declaredCapacity := raw.capacity
    capacity := raw.capacity.getD config.defaultNodeCapacity
    health := nodeHealth (JsMap.get? states raw.id) nowMs config
    load := 0
    cameras := [] }]

/-- The nodes of a planning: by id, the first of an id, none without an id. -/
def planNodes (config : SchedulerConfig) (states : List (String × NodeState)) (nowMs : ℚ)
    (input : List (Option RawNode)) : List PlanNode :=
  ((normalizeComputeNodes input).insertionSort (fun a b => compareIds a.id b.id ≤ 0)).foldl
    (addNode config states nowMs) []

/-- The three placement phases. -/
def placeAll (config : SchedulerConfig) (previous : Previous) (nodes : List PlanNode)
    (workloads : List Workload) : Placement :=
  let retained := workloads.foldl (retainOne previous) ⟨nodes, [], []⟩
  let placed := retained.deferred.foldl deferredOne retained
  (placed.nodes.map (·.id)).foldl (drainNode config) placed

def toAssignment (leaseExpiresAt : Int) (record : PlanRecord) : Assignment where
  cameraId := record.id
  nodeId := record.nodeId.getD ""
  weight := record.weight
  token := record.token.getD 0
  leaseExpiresAt := leaseExpiresAt

def toUnassigned (record : PlanRecord) : Unassigned where
  cameraId := record.id
  weight := record.weight
  reason :=
    match record.reason with
    | none | some .new => .noCapacity
    | some reason => reason
  previousNodeId := record.previousNodeId

def toMigration (record : PlanRecord) : Option Migration :=
  match record.previousNodeId, record.nodeId with
  | some p, some n =>
    if n ≠ p then some ⟨record.id, p, n, record.reason.getD .capacity⟩ else none
  | _, _ => none

def toRevocation (record : PlanRecord) : Option Revocation :=
  match record.previousNodeId with
  | some p =>
    if some p ≠ record.nodeId then
      some ⟨record.id, p, record.previousToken, record.reason.getD .capacity⟩
    else none
  | none => none

def planAssignments (input : PlanInput) (previous : RawPrevious) : Except PlanError Plan := do
  let config := resolveSchedulerConfig input.config
  let nowMs ← match input.now with
    | none => throw .nowRequired
    | some ms => pure ms
  let states := normalizeNodeStates input.nodeStates
  let nodes := planNodes config states nowMs input.nodes
  let workloads := orderWorkloads (normalizeWorkloads input.workloads)
  let previous := normalizePrevious previous
  let placed := placeAll config previous nodes workloads
  let assignedRecords := sortedById (placed.records.filter (·.nodeId.isSome))
  let (issued, nextToken) := issueTokens (max previous.nextToken 1) assignedRecords
  let leaseExpiresAt ← toISOString (plus nowMs (fl (config.leaseTtlSeconds * 1000)))
  let generatedAt ← toISOString nowMs
  let assignments := issued.map (toAssignment leaseExpiresAt)
  let unassigned := (sortedById (placed.records.filter (·.nodeId.isNone))).map toUnassigned
  let migrations := (sortedById placed.records).filterMap toMigration
  let revoked := (sortedById placed.records).filterMap toRevocation
  let finalNodes := placed.nodes.map (fun node =>
    { node with cameras := node.cameras.insertionSort (fun a b => compareIds a b ≤ 0) })
  let count (health : Health) := (finalNodes.filter (·.health = health)).length
  return {
    version := 1
    installationId := input.installationId
    generatedAt := generatedAt
    epoch := previous.epoch + 1
    nextToken := nextToken
    leaseTtlSeconds := config.leaseTtlSeconds
    nodes := finalNodes
    assignments := assignments
    unassigned := unassigned
    migrations := migrations
    revoked := revoked
    stats := {
      nodes := finalNodes.length
      alive := count .alive
      unknown := count .unknown
      draining := count .draining
      dead := count .dead
      workloads := workloads.length
      assigned := assignments.length
      unassigned := unassigned.length
      migrations := migrations.length
      revoked := revoked.length
      totalWeight := workloads.foldl (fun sum w => plus sum w.weight) 0 } }

end Drac.Central
