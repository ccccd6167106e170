import Porthop.Ports.Output

/- Whose the ports are, and when they are shown to be whose they are. -/
namespace Porthop.Ports

open Agent (isWhitespace)
open Ordered (under)
open Pattern (words)

/-! ## What was printed of a key -/

namespace Line

def key (l : Line) : Option Key := l.socket.map Socket.key

/-- The line is of the socket, and prints a process. -/
def prints (key : Key) (l : Line) : Bool := l.key = some key ∧ l.process.isSome

/-- Nothing in the line is taken for a name. -/
def silent (l : Line) : Bool := (reading l.text).1.isNone

end Line

def Container.isRow : Container → Bool
  | .row _ _ _ => true
  | .malformed _ => false

def Record.isRecord : Record → Bool
  | .of _ _ _ _ _ => true
  | .malformed _ => false

namespace Output
variable (o : Output)

/-- The lines of the socket that print a process. -/
def printed (key : Key) : List Line := o.lines.filter (Line.prints key)

/-- The process that is printed first. -/
def process (key : Key) : Option Process := (o.printed key).head?.bind Line.process

def Listens (key : Key) : Prop := ∃ l ∈ o.lines, l.key = some key

/-- The last container that publishes the key. -/
def container (key : Key) : Option Text :=
  (o.containers.getD []).reverse.findSome? (·.nameFor key)

def Publishes (key : Key) : Prop := ∃ c ∈ o.containers.getD [], c.nameFor key ≠ none

/-- What the last record of the process says. -/
def details (pid : Nat) : Option Details := (o.records.getD []).reverse.findSome? (·.about pid)

/-- What is printed without the malformed containers and records. -/
def wellFormed : Output :=
  { o with
    containers := o.containers.map fun cs => cs.filter Container.isRow
    records := o.records.map fun rs => rs.filter Record.isRecord }

/-- One row for each key, in their order, with the process that is printed first for it, the
    container that publishes it and the details of the process. -/
structure Right (rows : List DiscoveredPort) : Prop where
  sorted : rows.Pairwise fun a b => a.key < b.key
  keys : ∀ key, (∃ row ∈ rows, row.key = key) ↔ o.Listens key ∨ o.Publishes key
  name : ∀ row ∈ rows, row.processName = (o.process row.key).map Process.name
  pid : ∀ row ∈ rows, row.pid = (o.process row.key).map Process.pid
  container : ∀ row ∈ rows, row.containerName = o.container row.key
  details : ∀ row ∈ rows, row.toDetails = (row.pid.bind o.details).getD {}

/-- The first line that prints a process of a socket has a legible name. Or nothing is taken
    for a name in it, and the next line with a name happens to read as the same process. -/
def Told : Prop := ∀ key l, (o.printed key).head? = some l →
  l.Legible ∨ (l.silent = true ∧ ∃ l' p, (o.printed key).find? (fun l => !l.silent) = some l' ∧
    l.process = some p ∧ reading l'.text = (some p.name, some p.pid))

end Output

/-! ## The events of the listing -/

namespace Line
variable {l : Line}

def event (l : Line) : Option Event := l.key.map fun key => (key, reading l.text)

/-- The name that is read from the line, with the identifier. -/
def told (l : Line) : Option (Text × Option Nat) :=
  (reading l.text).1.map fun name => (name, (reading l.text).2)

theorem listen_columns {s : Socket} {first rest : Text}
    (h : "LISTEN".toList <:+: first ∨ "LISTEN".toList <:+: rest) :
    isListener (s.columns first rest) = true := by
  refine decide_eq_true ?_
  rcases h with h | h
  · exact h.trans (List.prefix_append first _).isInfix
  · rw [Socket.columns_append]
    exact h.trans (List.suffix_append _ rest).isInfix

theorem event_eq (h : l.Plain) :
    (if isListener l.text = true then eventOf l.text else none) = l.event := by
  cases l with
  | other text =>
    have hnot : isListener (Line.other text).text = false := h.1
    rw [hnot]
    rfl
  | ss s =>
    have hlistener : isListener (Line.ss s).text = true :=
      listen_columns (Or.inl (List.infix_refl _))
    rw [if_pos hlistener]
    show (localOf (words _ (s.columns _ _))).map _ = _
    rw [Socket.localOf_columns h field_listen]
    rfl
  | netstat protocol s =>
    have hlistener : isListener (Line.netstat protocol s).text = true :=
      listen_columns (Or.inr (List.prefix_append _ _).isInfix)
    rw [if_pos hlistener]
    show (localOf (words _ (s.columns _ _))).map _ = _
    rw [Socket.localOf_columns h.1 h.2.1]
    rfl

theorem slashed_plain {fields : List Text} {last : Text} (hlast : fields.getLast? = some last)
    (h : '/' ∉ last) : slashed fields = none := by
  unfold slashed
  rw [hlast, Option.bind_some, Splits.splitOnce_none h]

/-- Without a quote and without a slash in the last word there is no name. -/
theorem reading_nothing {line last : Text} (hquote : '"' ∉ line)
    (hlast : (words isWhitespace line).getLast? = some last) (hslash : '/' ∉ last) :
    (reading line).1 = none := by
  have husers : ¬ usersMark <:+: line := fun hin => hquote (hin.subset (by decide))
  show nameOf line _ = none
  unfold nameOf Pattern.second
  rw [(Pattern.splitOnce_eq_none (by decide)).mpr husers, slashed_plain hlast hslash]
  rfl

theorem spaces_no_quote {tail : Text} (h : ∀ c ∈ tail, c = ' ') : '"' ∉ tail :=
  fun hc => absurd (h '"' hc) (by decide)

/-- A line without a process tells nothing. -/
theorem told_nothing (h : l.Plain) (hnone : l.process = none) (hkey : l.key ≠ none) :
    l.told = none := by
  unfold told
  cases l with
  | other text => exact absurd rfl hkey
  | ss s =>
    have hprocesses : s.processes = [] := List.head?_eq_none_iff.mp hnone
    have htext : (Line.ss s).text = s.columns "LISTEN".toList s.tail := by
      show s.columns _ (users s.processes ++ s.tail) = _
      rw [hprocesses]
      rfl
    have htail : words isWhitespace s.tail = [] := by
      have hspaces : ∀ c ∈ s.tail, isWhitespace c = true := by
        intro c hc
        rw [h.tail c hc]
        decide
      have hgap := Pattern.words_gap hspaces []
      rw [List.append_nil] at hgap
      exact hgap
    have hquote := Socket.notMem_columns h field_listen (by decide) quote_not_plain
      (spaces_no_quote h.tail)
    have hlast : (words isWhitespace (s.columns "LISTEN".toList s.tail)).getLast? =
        some s.peer := by
      rw [Socket.words_columns h field_listen, htail]
      rfl
    rw [htext, reading_nothing hquote hlast fun hc => slash_not_plain (h.peer.2 '/' hc)]
    rfl
  | netstat protocol s =>
    obtain ⟨hs, hprotocol, -⟩ := h
    have hhead : s.processes.head? = none := hnone
    have htext : (Line.netstat protocol s).text =
        s.columns protocol ("LISTEN".toList ++ (s.gap₆ ++ (['-'] ++ s.tail))) := by
      show s.columns protocol (_ ++ (_ ++ (program s.processes.head? ++ _))) = _
      rw [hhead]
      rfl
    have hquote : '"' ∉ s.columns protocol ("LISTEN".toList ++ (s.gap₆ ++ (['-'] ++ s.tail))) := by
      refine Socket.notMem_columns hs hprotocol (by decide) quote_not_plain ?_
      simp only [List.mem_append, not_or]
      exact ⟨by decide, spaces_no_quote hs.gap₆.2, by decide, spaces_no_quote hs.tail⟩
    have hlast : (words isWhitespace
        (s.columns protocol ("LISTEN".toList ++ (s.gap₆ ++ (['-'] ++ s.tail))))).getLast? =
          some ['-'] := by
      rw [words_netstat hs hprotocol (by decide) (of_all (by decide))]
      rfl
    rw [htext, reading_nothing hquote hlast (by decide)]
    rfl

/-- The process is read exactly if its name is legible. -/
theorem reading_eq {p : Process} (h : l.Plain) (hp : l.process = some p) :
    reading l.text = (some p.name, some p.pid) ↔ l.Legible := by
  cases l with
  | other text => cases hp
  | ss s => exact reading_ss h hp
  | netstat protocol s => exact reading_netstat h.1 h.2.1 hp

end Line

section
variable {ls : List Line}

theorem eventsOf_lines (h : ∀ l ∈ ls, l.Plain) :
    eventsOf (ls.map Line.text) = ls.filterMap Line.event := by
  unfold eventsOf
  rw [List.filterMap_filter, List.filterMap_map]
  refine List.filterMap_congr fun l hl => ?_
  exact Line.event_eq (h l hl)

/-- A key has an event where a line is of its socket. -/
theorem under_events {key : Key} :
    under key (ls.filterMap Line.event) ≠ [] ↔ ∃ l ∈ ls, l.key = some key := by
  constructor
  · intro hne
    obtain ⟨e, he⟩ := List.exists_mem_of_ne_nil _ hne
    obtain ⟨hmem, hkey⟩ := Ordered.mem_under.mp he
    obtain ⟨l, hl, hevent⟩ := List.mem_filterMap.mp hmem
    obtain ⟨key', hkey', rfl⟩ := Option.map_eq_some_iff.mp hevent
    exact ⟨l, hl, hkey'.trans (congrArg some hkey)⟩
  · rintro ⟨l, hl, hkey⟩
    refine List.ne_nil_of_mem (a := (key, reading l.text)) (Ordered.mem_under.mpr ⟨?_, rfl⟩)
    refine List.mem_filterMap.mpr ⟨l, hl, ?_⟩
    unfold Line.event
    rw [hkey]
    rfl

/-- The first name of a key is told by a line that prints a process. -/
theorem firstNamed_lines (h : ∀ l ∈ ls, l.Plain) (key : Key) :
    firstNamed (under key (ls.filterMap Line.event)) =
      (ls.filter (Line.prints key)).findSome? Line.told := by
  induction ls with
  | nil => rfl
  | cons l ls ih =>
    have hrest := ih fun l' hl' => h l' (List.mem_cons_of_mem l hl')
    by_cases hkey : l.key = some key
    · have hevent : l.event = some (key, reading l.text) := by
        unfold Line.event
        rw [hkey]
        rfl
      have hfirst : firstNamed (under key ((l :: ls).filterMap Line.event)) =
          l.told.or (firstNamed (under key (ls.filterMap Line.event))) := by
        rw [List.filterMap_cons, hevent, under, List.filter_cons_of_pos (by simp),
          firstNamed_cons]
        rfl
      rw [hfirst, hrest]
      cases hprocess : l.process with
      | none =>
        have hnothing := Line.told_nothing (h l List.mem_cons_self) hprocess (by simp [hkey])
        rw [hnothing, Option.none_or, List.filter_cons_of_neg (by simp [Line.prints, hprocess])]
      | some p =>
        rw [List.filter_cons_of_pos (by simp [Line.prints, hprocess, hkey]), List.findSome?_cons]
        cases l.told <;> rfl
    · have hskip : under key ((l :: ls).filterMap Line.event) =
          under key (ls.filterMap Line.event) := by
        rw [List.filterMap_cons]
        cases hevent : l.event with
        | none => rfl
        | some e =>
          obtain ⟨key', hkey', rfl⟩ := Option.map_eq_some_iff.mp hevent
          have hne : key' ≠ key := by
            rintro rfl
            exact hkey hkey'
          exact List.filter_cons_of_neg (by simpa using hne)
      rw [hskip, hrest, List.filter_cons_of_neg (by simp [Line.prints, hkey])]

end

/-! ## What is told of a key -/

section
variable {o : Output} {key : Key}

theorem mem_printed {l : Line} (h : l ∈ o.printed key) :
    l ∈ o.lines ∧ l.key = some key ∧ ∃ p, l.process = some p := by
  obtain ⟨hl, hprints⟩ := List.mem_filter.mp h
  have hboth := of_decide_eq_true hprints
  exact ⟨hl, hboth.1, Option.isSome_iff_exists.mp hboth.2⟩

theorem told_none {l : Line} : l.told = none ↔ l.silent = true := by
  unfold Line.told Line.silent
  rw [Option.map_eq_none_iff, Option.isNone_iff_eq_none]

theorem told_some {l : Line} {name : Text} {pid : Option Nat} :
    l.told = some (name, pid) ↔ reading l.text = (some name, pid) := by
  unfold Line.told
  generalize reading l.text = r
  obtain ⟨name', pid'⟩ := r
  cases name' with
  | none => simp
  | some name' => simp

/-- What is told first is told by the first line that is not silent. -/
theorem findSome?_told {ls : List Line} :
    ls.findSome? Line.told = (ls.find? fun l => !l.silent).bind Line.told := by
  induction ls with
  | nil => rfl
  | cons l ls ih =>
    rw [List.findSome?_cons, List.find?_cons]
    cases hsilent : l.silent with
    | true =>
      rw [told_none.mpr hsilent, ih]
      rfl
    | false =>
      cases htold : l.told with
      | none =>
        rw [told_none.mp htold] at hsilent
        cases hsilent
      | some told =>
        show some told = l.told
        rw [htold]

/-- What the rows are to say of the process of a key. -/
def Output.shown (o : Output) (key : Key) : Option (Text × Option Nat) :=
  (o.process key).map fun p => (p.name, some p.pid)

theorem told_iff (h : ∀ l ∈ o.lines, l.Plain) :
    (∀ key, (o.printed key).findSome? Line.told = o.shown key) ↔ o.Told := by
  refine forall_congr' fun key => ?_
  unfold Output.shown Output.process
  cases hprinted : o.printed key with
  | nil =>
    refine ⟨fun _ l hl => ?_, fun _ => rfl⟩
    cases hl
  | cons l ls =>
    have hmem : l ∈ o.printed key := by
      rw [hprinted]
      exact List.mem_cons_self
    obtain ⟨hl, -, p, hp⟩ := mem_printed hmem
    have hshown : ((l :: ls).head?.bind Line.process).map (fun p => (p.name, some p.pid)) =
        some (p.name, some p.pid) := by
      rw [List.head?_cons, Option.bind_some, hp]
      rfl
    rw [hshown, findSome?_told]
    constructor
    · intro htold l₁ hl₁
      obtain rfl : l = l₁ := Option.some.inj hl₁
      obtain ⟨l', hl', hsome⟩ := Option.bind_eq_some_iff.mp htold
      cases hsilent : l.silent with
      | true => exact Or.inr ⟨rfl, l', p, hl', hp, told_some.mp hsome⟩
      | false =>
        rw [List.find?_cons_of_pos (by simp [hsilent]), Option.some.injEq] at hl'
        rw [← hl'] at hsome
        exact Or.inl ((Line.reading_eq (h l hl) hp).mp (told_some.mp hsome))
    · intro hcond
      rcases hcond l rfl with hlegible | ⟨-, l', p', hl', hp', hread⟩
      · have hread := (Line.reading_eq (h l hl) hp).mpr hlegible
        have hsome := told_some.mpr hread
        have hloud : l.silent = false := by
          cases hsilent : l.silent with
          | false => rfl
          | true =>
            rw [told_none.mpr hsilent] at hsome
            cases hsome
        rw [List.find?_cons_of_pos (by simp [hloud]), Option.bind_some, hsome]
      · rw [hl', Option.bind_some, told_some.mpr hread]
        rw [hp] at hp'
        rw [Option.some.inj hp']

end

/-- A name is part of the line it is read from. -/
theorem name_feed {line name : Text} (hline : '\n' ∉ line) (h : (reading line).1 = some name) :
    '\n' ∉ name := by
  have hname : nameOf line (words isWhitespace line) = some name := h
  unfold nameOf at hname
  rcases Option.or_eq_some_iff.mp hname with hquoted | ⟨-, hslashed⟩
  · obtain ⟨rest, hrest, rfl⟩ := Option.map_eq_some_iff.mp hquoted
    obtain ⟨r, hr, rfl⟩ := Option.map_eq_some_iff.mp hrest
    obtain ⟨rfl, -⟩ := (Pattern.splitOnce_eq_some (by decide)).mp hr
    intro hfeed
    refine hline (List.mem_append_right _ (List.mem_append_right _ ?_))
    exact (Pattern.before_prefix (by decide)).subset ((List.takeWhile_prefix _).subset hfeed)
  · obtain ⟨r, hr, rfl⟩ := Option.map_eq_some_iff.mp hslashed
    obtain ⟨w, hw, hsub⟩ := slashed_word hr
    intro hfeed
    exact absurd (Pattern.mem_words hw '\n' (hsub '\n' hfeed)) (by decide)

/-! ## The rows -/

section
variable (ν : Type) [NumText ν] {o : Output}

/-- What a plain output is read as, row by row. -/
theorem mem_parsePorts (h : o.Plain ν) (hunbroken : o.Unbroken) (row : DiscoveredPort) :
    row ∈ parsePorts ν o.text ↔ (o.Listens row.key ∨ o.Publishes row.key) ∧
      row = rowFor row.key ((o.printed row.key).findSome? Line.told) (o.container row.key)
        o.details := by
  have hevents : eventsOf (o.lines.map Line.text) = o.lines.filterMap Line.event :=
    eventsOf_lines h.lines
  have hentries : ∀ key, under key (((o.containers.getD []).map
      fun c => Ssh.stripReturn c.text).flatMap (entriesOf ν)) = [] ↔ ¬ o.Publishes key := by
    intro key
    rw [← List.getLast?_eq_none_iff, ← Option.map_eq_none_iff (f := Prod.snd),
      getLast?_containers ν h.containers, List.findSome?_eq_none_iff]
    unfold Output.Publishes
    simp only [not_exists, not_and, not_not, List.mem_reverse]
  have hrow : ∀ key, rowAt ν (o.lines.map Line.text)
      ((o.containers.getD []).map fun c => Ssh.stripReturn c.text)
      ((o.records.getD []).map fun r => Ssh.stripReturn r.text) key =
        rowFor key ((o.printed key).findSome? Line.told) (o.container key) o.details := by
    intro key
    unfold rowAt
    rw [hevents, firstNamed_lines h.lines, getLast?_containers ν h.containers]
    exact congrArg _ (funext fun pid => lastRecord_eq h.records pid)
  have hpresent : ∀ key, (¬ (under key (eventsOf (o.lines.map Line.text)) = [] ∧
      under key (((o.containers.getD []).map fun c => Ssh.stripReturn c.text).flatMap
        (entriesOf ν)) = [])) ↔ o.Listens key ∨ o.Publishes key := by
    intro key
    have hlistens : under key (o.lines.filterMap Line.event) ≠ [] ↔ o.Listens key := under_events
    rw [hentries, hevents, not_and_or, not_not, ← Ne, hlistens]
  rw [parsePorts_text ν h hunbroken, List.mem_map]
  constructor
  · rintro ⟨e, he, rfl⟩
    rw [key_rows ν he]
    obtain ⟨hpres, heq⟩ := (mem_rows ν).mp he
    exact ⟨(hpresent e.1).mp hpres, heq.trans (hrow e.1)⟩
  · rintro ⟨hpres, heq⟩
    refine ⟨(row.key, row), (mem_rows ν).mpr ⟨(hpresent row.key).mpr hpres, ?_⟩, rfl⟩
    exact heq.trans (hrow row.key).symm

theorem sorted_parsePorts (h : o.Plain ν) (hunbroken : o.Unbroken) :
    (parsePorts ν o.text).Pairwise fun a b => a.key < b.key := by
  rw [parsePorts_text ν h hunbroken, List.pairwise_map]
  obtain ⟨hsorted, -⟩ := @get_rows ν _ (toLex (0, [])) (o.lines.map Line.text)
    ((o.containers.getD []).map fun c => Ssh.stripReturn c.text)
    ((o.records.getD []).map fun r => Ssh.stripReturn r.text)
  refine hsorted.imp_of_mem ?_
  intro a b ha hb hlt
  rw [key_rows ν ha, key_rows ν hb]
  exact hlt

theorem shown_eq {told : Option (Text × Option Nat)} {process : Option Process} :
    told = process.map (fun p => (p.name, some p.pid)) ↔
      told.map Prod.fst = process.map Process.name ∧
        told.bind Prod.snd = process.map Process.pid := by
  cases told with
  | none =>
    cases process with
    | none => simp
    | some p => simp
  | some told =>
    cases process with
    | none => simp
    | some p => simp [Prod.ext_iff]

/-- The rows are right exactly where every first process is told. -/
theorem right_iff (h : o.Plain ν) (hunbroken : o.Unbroken) :
    o.Right (parsePorts ν o.text) ↔
      ∀ key, (o.printed key).findSome? Line.told = o.shown key := by
  have hmem := mem_parsePorts ν h hunbroken
  constructor
  · intro hright key
    cases hprinted : o.printed key with
    | nil =>
      unfold Output.shown Output.process
      rw [hprinted]
      rfl
    | cons l ls =>
      have hlistens : o.Listens key := by
        have hmem : l ∈ o.printed key := by
          rw [hprinted]
          exact List.mem_cons_self
        obtain ⟨hl, hkey, -⟩ := mem_printed hmem
        exact ⟨l, hl, hkey⟩
      obtain ⟨row, hrow, rfl⟩ := (hright.keys key).mpr (Or.inl hlistens)
      have heq := ((hmem row).mp hrow).2
      have hname : row.processName = _ := congrArg DiscoveredPort.processName heq
      have hpid : row.pid = _ := congrArg DiscoveredPort.pid heq
      rw [← hprinted]
      refine shown_eq.mpr ⟨?_, ?_⟩
      · exact hname.symm.trans (hright.name row hrow)
      · exact hpid.symm.trans (hright.pid row hrow)
  · intro htold
    have heq : ∀ row ∈ parsePorts ν o.text, row =
        rowFor row.key (o.shown row.key) (o.container row.key) o.details := by
      intro row hrow
      rw [← htold]
      exact ((hmem row).mp hrow).2
    refine ⟨sorted_parsePorts ν h hunbroken, ?_, ?_, ?_, ?_, ?_⟩
    · intro key
      constructor
      · rintro ⟨row, hrow, rfl⟩
        exact ((hmem row).mp hrow).1
      · intro hpresent
        refine ⟨rowFor key ((o.printed key).findSome? Line.told) (o.container key) o.details,
          (hmem _).mpr ⟨hpresent, rfl⟩, rfl⟩
    · intro row hrow
      have hname : row.processName = _ := congrArg DiscoveredPort.processName (heq row hrow)
      exact hname.trans (shown_eq.mp rfl).1
    · intro row hrow
      have hpid : row.pid = _ := congrArg DiscoveredPort.pid (heq row hrow)
      exact hpid.trans (shown_eq.mp rfl).2
    · intro row hrow
      have hcontainer : row.containerName = _ :=
        congrArg DiscoveredPort.containerName (heq row hrow)
      exact hcontainer
    · intro row hrow
      have hdetails : row.toDetails = _ := congrArg DiscoveredPort.toDetails (heq row hrow)
      have hpid : row.pid = _ := congrArg DiscoveredPort.pid (heq row hrow)
      rw [hpid]
      exact hdetails

/-- No name that is shown has a line break, whatever the output is. -/
theorem name_unbroken {output : Text} {row : DiscoveredPort} (h : row ∈ parsePorts ν output)
    {name : Text} (hname : row.processName = some name) : '\n' ∉ name := by
  rw [parsePorts_parts ν rfl rfl] at h
  obtain ⟨e, he, rfl⟩ := List.mem_map.mp h
  obtain ⟨-, heq⟩ := (mem_rows ν).mp he
  have hfirst : e.2.processName = _ := congrArg DiscoveredPort.processName heq
  rw [hname] at hfirst
  obtain ⟨told, htold, rfl⟩ := Option.map_eq_some_iff.mp hfirst.symm
  obtain ⟨event, hevent, hsome⟩ := List.exists_of_findSome?_eq_some htold
  obtain ⟨name, hread, rfl⟩ := Option.map_eq_some_iff.mp hsome
  obtain ⟨line, hline, hof⟩ := List.mem_filterMap.mp (Ordered.mem_under.mp hevent).1
  obtain ⟨key, -, rfl⟩ := Option.map_eq_some_iff.mp hof
  exact name_feed (notMem_linesOf (List.mem_of_mem_filter hline)) hread

theorem wellFormed_plain (h : o.Plain ν) : o.wellFormed.Plain ν := by
  have hcontainers : ∀ c ∈ o.wellFormed.containers.getD [], c ∈ o.containers.getD [] := by
    intro c hc
    cases hcase : o.containers with
    | none =>
      rw [Output.wellFormed, hcase] at hc
      exact hc
    | some cs =>
      rw [Output.wellFormed, hcase] at hc
      exact List.mem_of_mem_filter hc
  have hrecords : ∀ r ∈ o.wellFormed.records.getD [], r ∈ o.records.getD [] := by
    intro r hr
    cases hcase : o.records with
    | none =>
      rw [Output.wellFormed, hcase] at hr
      exact hr
    | some rs =>
      rw [Output.wellFormed, hcase] at hr
      exact List.mem_of_mem_filter hr
  exact ⟨h.lines, fun c hc => h.containers c (hcontainers c hc),
    fun r hr => h.records r (hrecords r hr)⟩

/-- Malformed containers and records change no row. -/
theorem parsePorts_wellFormed (h : o.Plain ν) (hunbroken : o.Unbroken) :
    parsePorts ν o.wellFormed.text = parsePorts ν o.text := by
  have hcontainers : ∀ rows : Rows, ((o.containers.getD []).map
      fun c => Ssh.stripReturn c.text).foldl (addContainer ν) rows =
        ((o.wellFormed.containers.getD []).map
          fun c => Ssh.stripReturn c.text).foldl (addContainer ν) rows := by
    intro rows
    have hfilter : o.wellFormed.containers.getD [] =
        (o.containers.getD []).filter Container.isRow := by
      unfold Output.wellFormed
      cases o.containers <;> rfl
    rw [hfilter, List.foldl_map, List.foldl_map]
    refine Lists.foldl_filter_skip ?_ rows
    intro c hc hnot rows
    cases c with
    | row text name mappings => cases hnot
    | malformed text =>
      unfold addContainer
      rw [show rowOf ν (Ssh.stripReturn (Container.malformed text).text) = none from
        rowOf_malformed ν (h.containers _ hc).2]
  have hrecords : ∀ rows : Rows, ((o.records.getD []).map
      fun r => Ssh.stripReturn r.text).foldl addDetails rows =
        ((o.wellFormed.records.getD []).map
          fun r => Ssh.stripReturn r.text).foldl addDetails rows := by
    intro rows
    have hfilter : o.wellFormed.records.getD [] =
        (o.records.getD []).filter Record.isRecord := by
      unfold Output.wellFormed
      cases o.records <;> rfl
    rw [hfilter, List.foldl_map, List.foldl_map]
    refine Lists.foldl_filter_skip ?_ rows
    intro r hr hnot rows
    cases r with
    | of pid exe cwd args user => cases hnot
    | malformed text =>
      unfold addDetails
      rw [show recordOf (Ssh.stripReturn (Record.malformed text).text) = none from
        recordOf_malformed (h.records _ hr).2]
  rw [parsePorts_text ν h hunbroken, parsePorts_text ν (wellFormed_plain ν h) hunbroken]
  unfold rowsOf
  rw [hcontainers, hrecords]
  rfl

/-- Where no name breaks its line, the rows are right exactly if the processes are told, and
    malformed lines change nothing. A first process whose name has a line break never is. -/
theorem listeners_attributed (h : o.Plain ν) :
    (o.Right (parsePorts ν o.text) → ∀ key p, o.process key = some p → '\n' ∉ p.name) ∧
      (o.Unbroken → (o.Right (parsePorts ν o.text) ↔ o.Told) ∧
        parsePorts ν o.wellFormed.text = parsePorts ν o.text) := by
  constructor
  · intro hright key p hp
    obtain ⟨l, hl, hprocess⟩ := Option.bind_eq_some_iff.mp hp
    obtain ⟨hmem, hkey, -⟩ := mem_printed (List.mem_of_mem_head? hl)
    obtain ⟨row, hrow, rfl⟩ := (hright.keys key).mpr (Or.inl ⟨l, hmem, hkey⟩)
    have hname := hright.name row hrow
    rw [hp] at hname
    exact name_unbroken ν hrow hname
  · intro hunbroken
    refine ⟨?_, parsePorts_wellFormed ν h hunbroken⟩
    rw [right_iff ν h hunbroken, told_iff h.lines]

end

/-- A line of `ss` with single spaces. -/
def ssLine (address : Text) (port : Nat) (processes : List Process) : Line := .ss
  { address, port, processes
    recv := digits 0
    send := digits 128
    peer := "0.0.0.0:*".toList
    gap₁ := [' ']
    gap₂ := [' ']
    gap₃ := [' ']
    gap₄ := [' ']
    gap₅ := [' ']
    gap₆ := [' ']
    tail := [] }

theorem ssLine_plain {address : Text} {port : Nat} {processes : List Process}
    (haddress : ∀ c ∈ address, PlainChar c) (hport : 0 < port ∧ port < 2 ^ 16)
    (hpids : ∀ p ∈ processes, p.pid < 2 ^ 32) : (ssLine address port processes).Plain := by
  have hgap : Gap [' '] := ⟨by decide, of_all (by decide)⟩
  have hpeer : Field "0.0.0.0:*".toList := ⟨by decide, of_all (by decide)⟩
  exact
    { address := haddress
      port := hport
      recv := @digits_plain 0
      send := @digits_plain 128
      peer := hpeer
      gap₁ := hgap
      gap₂ := hgap
      gap₃ := hgap
      gap₄ := hgap
      gap₅ := hgap
      gap₆ := hgap
      tail := fun c hc => absurd hc List.not_mem_nil
      pids := hpids }

def webRow : Json Int := .obj [("name", .str "web"),
  ("ports", .str "0.0.0.0:9000-9001->80-81/tcp, 53/udp")]

/-- The second listing knows the process of the first socket. A container publishes two ports,
    and one line in each of the last parts is malformed. -/
def server : Output where
  first := [.other "State Recv-Q Send-Q Local Address:Port".toList,
    ssLine "0.0.0.0".toList 22 [], ssLine "[::1]".toList 8080 [⟨"node".toList, 20, 3⟩]]
  second := [ssLine "0.0.0.0".toList 22 [⟨"sshd".toList, 45, 3⟩]]
  containers := some [
    .row webRow.render "web".toList [.tcp "0.0.0.0".toList 9000 9001 "80-81".toList,
      .other "53/udp".toList],
    .malformed "not json".toList]
  records := some [.of 45 [47, 115, 10] [] [] [], .malformed "9|zz|||".toList]

theorem server_attributed : server.Right (parsePorts Int server.text) := by
  have hplain : server.Plain Int := by
    refine ⟨?_, ?_, ?_⟩
    · intro l hl
      simp only [server, Output.lines, List.mem_append, List.mem_cons, List.not_mem_nil,
        or_false] at hl
      rcases hl with (rfl | rfl | rfl) | rfl
      · exact ⟨by decide, of_all (by decide)⟩
      · exact ssLine_plain (of_all (by decide)) (by decide) (by decide)
      · exact ssLine_plain (of_all (by decide)) (by decide) (by decide)
      · exact ssLine_plain (of_all (by decide)) (by decide) (by decide)
    · intro c hc
      simp only [server, Option.getD_some, List.mem_cons, List.not_mem_nil, or_false] at hc
      rcases hc with rfl | rfl
      · refine ⟨⟨by decide, by decide⟩, ?_, webRow, ?_, ?_, ?_⟩
        · intro m hm
          simp only [List.mem_cons, List.not_mem_nil, or_false] at hm
          rcases hm with rfl | rfl
          · exact ⟨of_all (by decide), by decide, of_all (by decide)⟩
          · exact ⟨of_all (by decide), by decide⟩
        · rw [Ssh.stripReturn_eq (by decide)]
          exact Json.read_render webRow
        · rfl
        · rfl
      · refine ⟨⟨by decide, by decide⟩, ?_⟩
        intro v hv
        have hnone : (Json.read (Ssh.stripReturn "not json".toList) : Option (Json Int)) =
            none := rfl
        rw [hnone] at hv
        cases hv
    · intro r hr
      simp only [server, Option.getD_some, List.mem_cons, List.not_mem_nil, or_false] at hr
      rcases hr with rfl | rfl
      · exact ⟨by decide, by decide⟩
      · refine ⟨by decide, ?_⟩
        intro pid exe cwd args user hfields
        have hsplit : (Ssh.stripReturn "9|zz|||".toList).splitOn '|' =
            ["9".toList, "zz".toList, [], [], []] := by decide
        rw [hsplit] at hfields
        simp only [List.cons.injEq] at hfields
        obtain ⟨-, rfl, -⟩ := hfields
        exact Or.inr ⟨_, List.mem_cons_self, by decide⟩
  have hunbroken : server.Unbroken := by
    intro l hl
    simp only [server, Output.lines, List.mem_append, List.mem_cons, List.not_mem_nil,
      or_false] at hl
    rcases hl with (rfl | rfl | rfl) | rfl
    · exact ⟨by decide, by decide⟩
    · exact ⟨by decide, by decide⟩
    · exact ⟨by decide, by decide⟩
    · exact ⟨by decide, by decide⟩
  have htold : server.Told := by
    intro key l hl
    have hmem := (mem_printed (List.mem_of_mem_head? hl)).1
    refine Or.inl ?_
    simp only [server, Output.lines, List.mem_append, List.mem_cons, List.not_mem_nil,
      or_false] at hmem
    rcases hmem with (rfl | rfl | rfl) | rfl
    · trivial
    · intro p hp
      cases hp
    · intro p hp
      rw [← Option.some.inj hp]
      exact ⟨by decide, by decide, fun hin => absurd hin (by decide)⟩
    · intro p hp
      rw [← Option.some.inj hp]
      exact ⟨by decide, by decide, fun hin => absurd hin (by decide)⟩
  exact ((listeners_attributed Int hplain).2 hunbroken).1.mpr htold

/-- A process whose name is `pid=1`. -/
def imitation : Output where
  first := [ssLine "0.0.0.0".toList 8080 [⟨"pid=1".toList, 835, 3⟩]]
  second := []
  containers := none
  records := none

theorem imitation_misattributed :
    imitation.Plain Int ∧ ¬ imitation.Right (parsePorts Int imitation.text) := by
  constructor
  · refine ⟨?_, ?_, ?_⟩
    · intro l hl
      obtain rfl := List.mem_singleton.mp hl
      exact ssLine_plain (of_all (by decide)) (by decide) (by decide)
    · intro c hc
      cases hc
    · intro r hr
      cases hr
  · intro hright
    have hrows : (parsePorts Int imitation.text).map (fun row => (row.key, row.pid)) =
        [(toLex (8080, "0.0.0.0".toList), some 1)] := by decide +kernel
    obtain ⟨row, hrow, heq⟩ : ∃ row ∈ parsePorts Int imitation.text, (row.key, row.pid) =
        (toLex (8080, "0.0.0.0".toList), some 1) := by
      rw [← List.mem_map, hrows]
      exact List.mem_singleton.mpr rfl
    rw [Prod.mk.injEq] at heq
    have hpid := hright.pid row hrow
    rw [heq.1, heq.2] at hpid
    exact absurd hpid (by decide +kernel)

end Porthop.Ports
