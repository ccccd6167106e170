import Porthop.Ports.Printed

/- The whole output of the script, and how it falls into its lines. -/
namespace Porthop.Ports

open Agent (isWhitespace)
open Porthop.Splits (terminated)

/-- The listing is printed once or twice; what follows may be missing. -/
structure Output where
  first : List Line
  second : List Line
  containers : Option (List Container)
  records : Option (List Record)

namespace Output

def lines (o : Output) : List Line := o.first ++ o.second

/-- A mark with the lines behind it. -/
def part (mark : Text) (lines : Option (List Text)) : Text :=
  lines.elim [] fun lines => mark ++ terminated '\n' lines

def text (o : Output) : Text :=
  (terminated '\n' (o.lines.map Line.text) ++
    part dockerMark (o.containers.map fun cs => cs.map Container.text)) ++
      part detailsMark (o.records.map fun rs => rs.map Record.text)

structure Plain (ν : Type) [NumText ν] (o : Output) : Prop where
  lines : ∀ l ∈ o.lines, l.Plain
  containers : ∀ c ∈ o.containers.getD [], c.Plain ν
  records : ∀ r ∈ o.records.getD [], r.Plain

def Unbroken (o : Output) : Prop := ∀ l ∈ o.lines, l.Unbroken

end Output

/-! ## Lines -/

theorem notMem_linesOf {text line : Text} (h : line ∈ Ssh.linesOf text) : '\n' ∉ line := by
  have hpieces : ∀ piece ∈ text.splitOn '\n', '\n' ∉ piece := by
    intro piece hpiece hfeed
    rw [List.splitOn_eq_splitOnP] at hpiece
    exact absurd (Pattern.mem_splitOnP hpiece '\n' hfeed) (by decide)
  unfold Ssh.linesOf at h
  rcases List.mem_append.mp h with h | h
  · obtain ⟨piece, hpiece, rfl⟩ := List.mem_map.mp h
    have hnone := hpieces piece (List.dropLast_subset _ hpiece)
    unfold Ssh.stripReturn
    split
    · exact fun hfeed => hnone (List.dropLast_subset _ hfeed)
    · exact hnone
  · rw [Option.mem_toList, Option.filter_eq_some_iff] at h
    exact hpieces line (List.mem_of_getLast? h.1)

theorem Line.Unbroken.seen {l : Line} (h : l.Unbroken) : Ssh.stripReturn l.text = l.text :=
  if_neg h.2

/-! ## Lines and marks -/

/-- What ends with a character and spaces behind it does not end with anything else. -/
theorem ends_not_spaces {w t tail : Text} {c : Char} (htail : ∀ d ∈ tail, d = ' ')
    (hw : w.getLast? = some '_') (hc : c ≠ '_') : ¬ w <:+ t ++ c :: tail := by
  rintro ⟨a, ha⟩
  have hlast : (c :: tail).getLast? = some '_' := by
    have hboth : (a ++ w).getLast? = some '_' := by rw [List.getLast?_append, hw, Option.some_or]
    rw [ha, List.getLast?_append, List.getLast?_cons, Option.some_or] at hboth
    rw [List.getLast?_cons]
    exact hboth
  rcases List.mem_cons.mp (List.mem_of_getLast? hlast) with heq | hmem
  · exact hc heq.symm
  · exact absurd (htail '_' hmem) (by decide)

theorem users_end (p : Process) (ps : List Process) : ∃ t, users (p :: ps) = t ++ [')'] := by
  refine ⟨usersMark ++ (p.name ++ (p.numbers ++
    ps.flatMap fun p => ",(\"".toList ++ (p.name ++ p.numbers))), ?_⟩
  rw [users]
  simp

/-- No line ends like a mark. -/
theorem Line.Plain.unmarked {l : Line} (h : l.Plain) {w : Text} (hw : w.getLast? = some '_')
    (hlength : 21 < w.length) (hslash : '/' ∉ w) : ¬ w <:+ l.text := by
  cases l with
  | other text =>
    exact fun hend => h.2 '_' (by decide) (hend.subset (List.mem_of_getLast? hw))
  | ss s =>
    cases hprocesses : s.processes with
    | nil =>
      -- the line ends with the gap behind the peer
      obtain ⟨c, gap, hgap⟩ := List.exists_cons_of_ne_nil h.gap₅.1
      have hspaces : ∀ d ∈ c :: gap, d = ' ' := by
        rw [← hgap]
        exact h.gap₅.2
      have htext : ∃ t, (Line.ss s).text = t ++ c :: (gap ++ s.tail) := by
        refine ⟨"LISTEN".toList ++ (s.gap₁ ++ (s.recv ++ (s.gap₂ ++ (s.send ++ (s.gap₃ ++
          (s.localText ++ (s.gap₄ ++ s.peer))))))), ?_⟩
        show s.columns _ (users s.processes ++ s.tail) = _
        rw [hprocesses, users, Socket.columns, hgap]
        simp [Socket.localText]
      obtain ⟨t, htext⟩ := htext
      rw [htext]
      refine ends_not_spaces ?_ hw ?_
      · intro d hd
        rcases List.mem_append.mp hd with hd | hd
        · exact hspaces d (List.mem_cons_of_mem c hd)
        · exact h.tail d hd
      · rw [hspaces c List.mem_cons_self]
        decide
    | cons p ps =>
      obtain ⟨t, ht⟩ := users_end p ps
      have htext : (Line.ss s).text = (s.columns "LISTEN".toList [] ++ t) ++ ')' :: s.tail := by
        show s.columns _ (users s.processes ++ s.tail) = _
        rw [hprocesses, ht, Socket.columns_append]
        simp
      rw [htext]
      exact ends_not_spaces h.tail hw (by decide)
  | netstat protocol s =>
    obtain ⟨hs, -, hname⟩ := h
    cases hp : s.processes.head? with
    | none =>
      have htext : (Line.netstat protocol s).text =
          (s.columns protocol [] ++ ("LISTEN".toList ++ s.gap₆)) ++ '-' :: s.tail := by
        show s.columns protocol (_ ++ (_ ++ (program s.processes.head? ++ _))) = _
        rw [hp, program, Socket.columns_append]
        simp
      rw [htext]
      exact ends_not_spaces hs.tail hw (by decide)
    | some p =>
      have htext : (Line.netstat protocol s).text =
          netstatFront protocol s p.pid ++ '/' :: (p.name ++ s.tail) := netstat_text hp
      cases htail : s.tail with
      | nil =>
        -- the last column is too short to hold the mark
        rw [htail, List.append_nil] at htext
        intro hend
        have hshort := hname p (List.mem_of_mem_head? hp)
        have hcolumn : '/' :: p.name <:+ w := by
          refine List.suffix_of_suffix_length_le ?_ hend ?_
          · rw [htext]
            exact List.suffix_append _ _
          · rw [List.length_cons]
            omega
        exact hslash (hcolumn.subset List.mem_cons_self)
      | cons c tail =>
        have hspaces : ∀ d ∈ c :: tail, d = ' ' := by
          rw [← htail]
          exact hs.tail
        have hlast : (Line.netstat protocol s).text =
            (netstatFront protocol s p.pid ++ '/' :: p.name) ++ c :: tail := by
          rw [htext, htail]
          simp
        rw [hlast]
        refine ends_not_spaces (fun d hd => hspaces d (List.mem_cons_of_mem c hd)) hw ?_
        rw [hspaces c List.mem_cons_self]
        decide

/-! ## The parts -/

theorem split_part {mark front : Text} (hne : mark ≠ [])
    (h : ¬ mark <:+: front ++ mark.dropLast) (lines : Option (List Text)) :
    (Pattern.splitOnce mark (front ++ Output.part mark lines)).getD
      (front ++ Output.part mark lines, []) =
        (front, terminated '\n' (lines.getD [])) := by
  cases lines with
  | none =>
    have hnone : ¬ mark <:+: front :=
      fun hin => h (hin.trans (List.prefix_append front _).isInfix)
    show (Pattern.splitOnce mark (front ++ [])).getD _ = _
    rw [List.append_nil, (Pattern.splitOnce_eq_none hne).mpr hnone]
    show (front ++ [], []) = _
    rw [List.append_nil]
    rfl
  | some lines =>
    show (Pattern.splitOnce mark (front ++ (mark ++ _))).getD _ = _
    rw [Pattern.splitOnce_append hne h]
    rfl

/-- Lines that do not end like the mark come before it. -/
theorem split_marked {w : Text} {ls : List Text} (hw : '\n' ∉ w) (h : ∀ l ∈ ls, '\n' ∉ l)
    (hends : ∀ l ∈ ls, ¬ w <:+ l) (lines : Option (List Text)) :
    (Pattern.splitOnce (w ++ ['\n'])
      (terminated '\n' ls ++ Output.part (w ++ ['\n']) lines)).getD
        (terminated '\n' ls ++ Output.part (w ++ ['\n']) lines, []) =
          (terminated '\n' ls, terminated '\n' (lines.getD [])) := by
  refine split_part (by simp) ?_ lines
  rw [List.dropLast_concat]
  intro hin
  obtain ⟨l, hl, hend⟩ := Splits.ends_piece h hw hw hin
  exact hends l hl hend

section
variable (ν : Type) [NumText ν] {o : Output}

/-- What the marks divide is read line by line. -/
theorem parsePorts_parts {text front details listeners docker : Text}
    (hdetails : (Pattern.splitOnce detailsMark text).getD (text, []) = (front, details))
    (hdocker : (Pattern.splitOnce dockerMark front).getD (front, []) = (listeners, docker)) :
    parsePorts ν text = (rowsOf ν (Ssh.linesOf listeners) (Ssh.linesOf docker)
      (Ssh.linesOf details)).map Prod.snd := by
  unfold parsePorts
  rw [hdetails]
  simp only [hdocker]
  rfl

/-- Where nothing is broken, the lines are seen as they were printed. -/
theorem parsePorts_text (h : o.Plain ν) (hunbroken : o.Unbroken) : parsePorts ν o.text =
    (rowsOf ν (o.lines.map Line.text) ((o.containers.getD []).map fun c => Ssh.stripReturn c.text)
      ((o.records.getD []).map fun r => Ssh.stripReturn r.text)).map Prod.snd := by
  have hdetails : detailsMark = detailsMark.dropLast ++ ['\n'] := by decide
  have hdocker : dockerMark = dockerMark.dropLast ++ ['\n'] := by decide
  have hlines : ∀ l ∈ o.lines.map Line.text, '\n' ∉ l := by
    intro t ht
    obtain ⟨l, hl, rfl⟩ := List.mem_map.mp ht
    exact (hunbroken l hl).1
  have hmarks : ∀ w : Text, w.getLast? = some '_' → 21 < w.length → '/' ∉ w →
      ∀ t ∈ o.lines.map Line.text, ¬ w <:+ t := by
    intro w hw hlength hslash t ht
    obtain ⟨l, hl, rfl⟩ := List.mem_map.mp ht
    exact (h.lines l hl).unmarked hw hlength hslash
  have hcontainers : ∀ c ∈ o.containers.getD [],
      '\n' ∉ c.text ∧ ¬ detailsMark.dropLast <:+ c.text := fun c hc => (h.containers c hc).1
  have hrecords : ∀ r ∈ o.records.getD [], '\n' ∉ r.text := by
    intro r hr
    cases r with
    | of pid exe cwd args user => exact notMem_record (by decide) (by decide) (by decide)
    | malformed text => exact (h.records _ hr).1
  -- the listing and the containers end where the records begin
  have hfront : terminated '\n' (o.lines.map Line.text) ++
      Output.part dockerMark (o.containers.map fun cs => cs.map Container.text) =
        terminated '\n' (o.lines.map Line.text ++
          (o.containers.elim [] fun cs => dockerMark.dropLast :: cs.map Container.text)) := by
    rw [Splits.terminated_append]
    refine congrArg _ ?_
    cases o.containers with
    | none => rfl
    | some cs =>
      show dockerMark ++ terminated '\n' _ = terminated '\n' (dockerMark.dropLast :: _)
      rw [← List.append_nil (terminated '\n' (dockerMark.dropLast :: _)),
        Splits.terminated_cons, List.append_nil]
      rfl
  have hall : ∀ t ∈ o.lines.map Line.text ++
      (o.containers.elim [] fun cs => dockerMark.dropLast :: cs.map Container.text),
      '\n' ∉ t ∧ ¬ detailsMark.dropLast <:+ t := by
    intro t ht
    rcases List.mem_append.mp ht with ht | ht
    · exact ⟨hlines t ht, hmarks _ (by decide) (by decide) (by decide) t ht⟩
    · cases hcase : o.containers with
      | none =>
        rw [hcase] at ht
        exact absurd ht List.not_mem_nil
      | some cs =>
        rw [hcase] at ht hcontainers
        rcases List.mem_cons.mp ht with rfl | ht
        · exact ⟨by decide, by decide⟩
        · obtain ⟨c, hc, rfl⟩ := List.mem_map.mp ht
          exact hcontainers c hc
  have hfirst := split_marked (w := detailsMark.dropLast) (by decide)
    (fun t ht => (hall t ht).1) (fun t ht => (hall t ht).2)
    (o.records.map fun rs => rs.map Record.text)
  rw [← hdetails, ← hfront] at hfirst
  have hsecond := split_marked (w := dockerMark.dropLast) (by decide) hlines
    (hmarks _ (by decide) (by decide) (by decide))
    (o.containers.map fun cs => cs.map Container.text)
  rw [← hdocker] at hsecond
  have hlisted : ∀ {γ : Type} (text : γ → Text) (cs : Option (List γ)),
      (∀ c ∈ cs.getD [], '\n' ∉ text c) →
        Ssh.linesOf (terminated '\n' ((cs.map fun cs => cs.map text).getD [])) =
          (cs.getD []).map fun c => Ssh.stripReturn (text c) := by
    intro γ text cs hcs
    have hmap : (cs.map fun cs => cs.map text).getD [] = (cs.getD []).map text := by
      cases cs <;> rfl
    rw [hmap, Ssh.linesOf_terminated, List.map_map]
    · rfl
    · intro t ht
      obtain ⟨c, hc, rfl⟩ := List.mem_map.mp ht
      exact hcs c hc
  have hseen : Ssh.linesOf (terminated '\n' (o.lines.map Line.text)) = o.lines.map Line.text := by
    rw [Ssh.linesOf_terminated hlines, List.map_map]
    exact List.map_congr_left fun l hl => (hunbroken l hl).seen
  refine (parsePorts_parts ν hfirst hsecond).trans ?_
  rw [hseen, hlisted Container.text _ fun c hc => (hcontainers c hc).1,
    hlisted Record.text _ hrecords]

end

end Porthop.Ports
