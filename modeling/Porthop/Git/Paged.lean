import Porthop.Git.HistoryPages
import Porthop.Git.Queries

/- The pages of a listing and of a history hold its rows. -/
namespace Porthop.Git.Cli

open Tokens (RepoRef SnapshotRef CursorRef Listing Issued)
open MessagePack (utf8 ofUtf8)
open Response (ObjectFormat hexText)

/-! ## What Git answers -/

/-- The objects of the ids in a request, one a line. -/
def Graph.found (graph : Graph) (input : List UInt8) : List (String × List UInt8) :=
  ((ofUtf8 input).elim [] fun text => Ssh.linesOf text.toList).filterMap fun id =>
    graph.commits.find? fun c => c.1.toList = id

/-- Git's answers for a graph, of which a revision names the tip. -/
def Graph.answers (graph : Graph) : Answers where
  revision := .ok (some (utf8 graph.tip ++ [newline]))
  unborn := .ok false
  shallow := .ok graph.shallow
  list n m _ := .ok (utf8 (String.ofList
    (Splits.terminated '\n' ((graph.part n m).map fun c => c.1.toList))))
  objects input := limited (printed (graph.found input))

def remotes : Listing := Tokens.sampleListing (.remoteNames "")

end Porthop.Git.Cli
