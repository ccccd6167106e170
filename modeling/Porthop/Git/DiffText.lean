import Porthop.Git.DiffModel

/- The texts of a diff's documents.

   No text has a line feed, so the editor makes more lines of a document only at a return. The
   texts of git's notes have none; that of any other line keeps those that no line feed follows
   in what the agent sent. -/
namespace Porthop.Git.DiffModel

open Porthop.Lines

end Porthop.Git.DiffModel
