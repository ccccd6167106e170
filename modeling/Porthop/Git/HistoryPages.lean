import Porthop.Git.Decoded
import Porthop.Git.History

/- Following the cursors of a history.

   While the graph, the revision and the message budget stay what they are, each request goes on
   from the commit the first one resolved the revision to, whatever the branch does meanwhile. -/
namespace Porthop.Git.Cli

open Tokens (RepoRef SnapshotRef CursorRef Listing Issued)
open MessagePack (utf8 ofUtf8)
open Response (ObjectFormat hexText lowerHex)

/-! ## The graph -/

/-- The commits that are reached from a commit, in the order Git lists them, each with its
    object, and where a shallow history ends. -/
structure Graph where
  format : ObjectFormat
  tip : String
  commits : List (String × List UInt8)
  shallow : Option (List UInt8)
  tip_hex : hexText format.oidLength tip
  commits_hex : ∀ c ∈ commits, hexText format.oidLength c.1

/-- Some of the commits, from a position on. -/
def Graph.part (graph : Graph) (n m : Nat) : List (String × List UInt8) :=
  (graph.commits.drop n).take m

/-- What Git prints of the objects. -/
def printed (part : List (String × List UInt8)) : List UInt8 :=
  part.flatMap fun c => headerOf c.1 "commit" c.2.length ++ (c.2 ++ [newline])

def outputLimit : Nat := 32 * 1024 * 1024

/-- The output of a command. -/
def limited (output : List UInt8) : Except Error (Option (List UInt8)) :=
  if output.length ≤ outputLimit then .ok (some output)
  else .error (.new "LIMIT_EXCEEDED" "Git output exceeds the CLI backend's memory limit.")

/-- The answers are those for the graph. -/
structure Shows (git : Answers) (graph : Graph) : Prop where
  shallow : git.shallow = .ok graph.shallow
  list : ∀ n m, m ≤ 201 → git.list n m graph.tip = .ok (utf8 (String.ofList
    (Splits.terminated '\n' ((graph.part n m).map fun c => c.1.toList))))
  objects : ∀ n m, graph.part n m ≠ [] →
    git.objects (batch ((graph.part n m).map Prod.fst)) = limited (printed (graph.part n m))

/-- The rows of the graph, and that nothing of it exceeds a limit. -/
structure Fits (graph : Graph) (budget : Nat) (rows : List Value) : Prop where
  read : List.Forall₂ (fun c row => commitRow c.1 c.2 budget = .ok row) graph.commits rows
  small : ∀ row ∈ rows, row.size ≤ half
  objects : ∀ n m, m ≤ 200 → (printed (graph.part n m)).length ≤ outputLimit
  shallow : (graph.shallow.getD []).length ≤ 8 * 1024 * 1024
  count : rows.length < 2 ^ 64

/-! ## Reading the objects -/

section
variable {graph : Graph} {budget : Nat} {rows : List Value} {git : Answers}

theorem Fits.part (h : Fits graph budget rows) (n m : Nat) :
    List.Forall₂ (fun c row => commitRow c.1 c.2 budget = .ok row) (graph.part n m)
      ((rows.drop n).take m) :=
  List.forall₂_take m (List.forall₂_drop n h.read)

theorem Fits.length (h : Fits graph budget rows) : graph.commits.length = rows.length :=
  h.read.length_eq

end

/-! ## The pages are served -/

section
variable {digest : List UInt8 → String} {revision : String} {budget : Option Nat} {graph : Graph}
  {l : Listing} {rows : List Value} {git : Answers}

/-- The cursors of the listing are for the history of the graph. -/
structure Lists (digest : List UInt8 → String) (revision : String) (budget : Option Nat)
    (graph : Graph) (l : Listing) : Prop where
  query : l.query = .history revision (budgetOf budget)
  fingerprint : l.fingerprint = digest (utf8 graph.tip ++ graph.shallow.getD [])
  tip : l.tip = some graph.tip

end

end Porthop.Git.Cli
