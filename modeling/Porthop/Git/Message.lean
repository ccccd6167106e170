import Porthop.Git.Journal

/- The messages of the Git channel and the names their payloads use.

   A payload is JSON. Its numbers are those `serde_json` keeps apart: unsigned and negative
   64-bit integers, and finite 64-bit floats, which are their bits here. A field name with
   a number travels as that number. -/
namespace Porthop.Git.Wire

/-- The exponent of a finite float is not all ones. -/
def finite (bits : UInt64) : Bool := bits.toNat / 2 ^ 52 % 2048 ≠ 2047

/-- A negative integer is given by how far below −1 it is. -/
inductive Number where
  | pos (n : UInt64)
  | neg (n : Fin (2 ^ 63))
  | float (bits : UInt64) (h : finite bits = true)

abbrev Value := Json Number

structure CommandLog where
  command : String
  durationMs : UInt64
  exitCode : Option Int32
  output : String
  interrupted : Bool

inductive Message where
  | hello (protocol : String) (versions : List UInt32) (instanceId : String) (limits : Value)
  | initialization (id : String) (version : UInt32) (clientId clientVersion : String)
      (commandLogs : Bool)
  | ready (id : String) (version : UInt32) (capabilities : Value)
  | request (id method : String) (params : Value)
  | commandLog (id : String) (entry : CommandLog)
  | response (id : String) (result : Option Value) (error : Option Error)
  | ping (nonce : String)
  | pong (nonce : String)
  | begin (id streamId snapshot : String)
  | chunk (id streamId : String) (seq : UInt32) (bytesB64 : String)
  | ack (streamId : String) (seq : UInt32)

namespace Message

def success (id : String) (result : Value) : Message := response id (some result) none

def failure (id : String) (error : Error) : Message := response id none (some error)

end Message

def maxFrame : Nat := 1024 * 1024
def maxDiff : Nat := 20 * 1024 * 1024
def chunkSize : Nat := 64 * 1024
def streamWindow : Nat := 8

/-- The field names, each at its number. -/
def fields : List String :=
  ["type", "id", "method", "params", "result", "error", "code", "message", "retry", "repoId",
    "snapshot", "entries", "nextCursor", "path", "bytesB64", "display", "kind", "operationId",
    "expectedSnapshot", "streamId", "seq", "contentBytesB64", "action", "actions", "additions",
    "ahead", "algorithm", "amended", "annotated", "annotation", "applied", "atSnapshot",
    "authentication", "author", "backend", "bare", "base", "basis", "behind", "binary", "branch",
    "branchKind", "byteOffset", "bytes", "canAbort", "canContinue", "canSkip", "capabilities",
    "clientId", "clientVersion", "clone", "cloned", "closed", "command", "commandLogs",
    "commitOid", "committer", "commonRepoId", "configuration", "conflict", "conflicted",
    "content", "contextLines", "current", "cursor", "deletions", "destinationBranch", "detached",
    "detailsOmitted", "dropped", "durationMs", "editable", "email", "engine", "entry", "entryId",
    "entryIds", "exitCode", "expectedOid", "expectedRemoteOid", "expectedToken", "features",
    "fetch", "fileIndex", "files", "filter", "flags", "forPush", "force", "format", "gitDir",
    "group", "groupCounts", "hasOmissions", "head", "hex", "https", "hunks", "ids",
    "includeDepth", "includeUntracked", "index", "initialBranch", "initialized", "instanceId",
    "integration", "interrupted", "keepIndex", "lastSeq", "level", "limits", "lineComplete",
    "lineEncoding", "lineIndex", "lines", "listToken", "lockReason", "locked", "main", "mainline",
    "managed", "matchedEntries", "matchingEntries", "maxBytes", "maxChunkBytes", "maxFrameBytes",
    "maxInflight", "maxPageItems", "messageBytes", "messageTruncated", "metadata", "methods",
    "mode", "name", "needsResolution", "newBranch", "newLine", "newLines", "newMode", "newName",
    "newOid", "newPath", "newStart", "nonce", "objectFormat", "objectFormats", "objectType",
    "offset", "offsetMinutes", "oid", "oldLine", "oldLines", "oldMode", "oldOid", "oldPath",
    "oldStart", "omissionReason", "ontoOid", "openRequired", "operationState", "origin", "ours",
    "output", "pageSize", "parentIndex", "parentOid", "parents", "peeledOid", "peeledType",
    "previousOid", "protocol", "prunable", "prune", "push", "pushUrl", "rawOid", "readOnly",
    "reason", "reference", "refreshRequired", "reinstateIndex", "remote", "remoteBranch",
    "remoteToken", "replacedOid", "repository", "resolvedRevision", "revision", "root", "saved",
    "selectedPath", "side", "size", "source", "sourceSnapshot", "ssh", "staged", "startOid",
    "state", "status", "streamWindow", "symbolicTarget", "tagger", "target", "targetOid", "text",
    "theirs", "time", "token", "totalEntries", "totalFiles", "totalLines", "totalUnits",
    "tracking", "truncated", "tuple_v1", "unborn", "unstaged", "untracked", "upstream",
    "upstreamOid", "upstreamRef", "url", "value", "version", "versions", "workingTree",
    "worktree", "diff", "merge", "payloadHash"]

def fieldId (name : String) : Option Nat := fields.idxOf? name

def fieldName (id : Nat) : Option String := fields[id]?

/-- A field's number names it. -/
theorem fieldName_fieldId {name : String} {id : Nat} (h : fieldId name = some id) :
    fieldName id = some name := by
  obtain ⟨hlt, heq, -⟩ := List.idxOf?_eq_some_iff.mp h
  rw [fieldName, List.getElem?_eq_getElem hlt, heq]

theorem fieldId_lt {name : String} {id : Nat} (h : fieldId name = some id) : id < 231 := by
  obtain ⟨hlt, -, -⟩ := List.idxOf?_eq_some_iff.mp h
  exact hlt

end Porthop.Git.Wire
