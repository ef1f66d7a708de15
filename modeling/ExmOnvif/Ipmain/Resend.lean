/-
This file settles what is sent again from the table of the alarms.

The table holds the last rows inserted, numbered from one on, and the newest of them is
never deleted; so the largest id in the table is the number of rows inserted so far, and
the rows behind the last acknowledgement that is still there, or all rows when none is,
are the rows inserted after the last acknowledgement ever. This holds as long as the number
of rows inserted fits into an `int`.
-/

import ExmOnvif.Ipmain.AlarmDb

namespace ExmOnvif.Ipmain

open Library

/-! ### Numbered rows -/

/-- The rows of some dumps, numbered from behind a number on. -/
def numberFrom : Nat → List Dump → List Row
  | _, [] => []
  | number, dump :: rest => dump.row (number + 1) (number + 1) :: numberFrom (number + 1) rest

section Numbered

variable (number : Nat) (dumps : List Dump)

theorem numberFrom_append (more : List Dump) :
    numberFrom number (dumps ++ more) =
      numberFrom number dumps ++ numberFrom (number + dumps.length) more := by
  induction dumps generalizing number with
  | nil => rfl
  | cons dump rest inductionHypothesis =>
    rw [List.cons_append, numberFrom, numberFrom, inductionHypothesis, List.cons_append,
      List.length_cons, Nat.add_right_comm, Nat.add_assoc]

@[simp] theorem numberFrom_length : (numberFrom number dumps).length = dumps.length := by
  induction dumps generalizing number with
  | nil => rfl
  | cons dump rest inductionHypothesis => rw [numberFrom, List.length_cons, List.length_cons,
      inductionHypothesis]

variable {number dumps}

theorem mem_numberFrom {row : Row} (member : row ∈ numberFrom number dumps) :
    ∃ dump ∈ dumps, ∃ place, number < place ∧ place ≤ number + dumps.length ∧
      row = dump.row place place := by
  induction dumps generalizing number with
  | nil => cases member
  | cons dump rest inductionHypothesis =>
    rw [List.length_cons]
    rcases List.mem_cons.mp member with rfl | later
    · exact ⟨dump, List.mem_cons_self, number + 1, by omega, by omega, by simp⟩
    · obtain ⟨other, inside, place, above, below, same⟩ := inductionHypothesis later
      exact ⟨other, List.mem_cons_of_mem _ inside, place, by omega, by omega, same⟩

/-- The ids increase from row to row. -/
theorem numberFrom_increasing :
    (numberFrom number dumps).Pairwise fun first second => first.id < second.id := by
  induction dumps generalizing number with
  | nil => exact List.Pairwise.nil
  | cons dump rest inductionHypothesis =>
    refine List.Pairwise.cons (fun row member => ?_) inductionHypothesis
    obtain ⟨_, _, place, above, _, rfl⟩ := mem_numberFrom member
    show ((number + 1 : Nat) : Int) < (place : Int)
    exact_mod_cast above

end Numbered

/-! ### The queries -/

/-- Rows whose ids increase are in order. -/
theorem orderById_of_increasing {rows : List Row}
    (increasing : rows.Pairwise fun first second => first.id < second.id) :
    orderById rows = rows := by
  refine List.mergeSort_of_pairwise (increasing.imp fun less => ?_)
  exact decide_eq_true (le_of_lt less)

/-- The largest id of rows whose ids increase is that of the last. -/
theorem largestId_append {rows : List Row} {last : Row}
    (increasing : (rows ++ [last]).Pairwise fun first second => first.id < second.id) :
    largestId (rows ++ [last]) = last.id := by
  have sorted : (orderByIdDesc (rows ++ [last])).Pairwise fun first second =>
      decide (second.id < first.id ∨ second.id = first.id ∧ second.time ≤ first.time) = true := by
    refine List.pairwise_mergeSort (fun first second third => ?_) (fun first second => ?_) _
    · simp only [decide_eq_true_eq]
      omega
    · simp only [Bool.or_eq_true, decide_eq_true_eq]
      omega
  have members : ∀ row, row ∈ orderByIdDesc (rows ++ [last]) ↔ row ∈ rows ++ [last] :=
    fun row => List.mem_mergeSort
  unfold largestId
  cases ordered : orderByIdDesc (rows ++ [last]) with
  | nil =>
    have inside := (members last).mpr (List.mem_append_right _ (List.mem_singleton_self _))
    rw [ordered] at inside
    cases inside
  | cons first rest =>
    rw [ordered] at sorted members
    rw [List.head?_cons]
    -- The first is not below the last, and none is above it.
    have notBelow : last.id ≤ first.id := by
      rcases List.mem_cons.mp ((members last).mpr
        (List.mem_append_right _ (List.mem_singleton_self _))) with rfl | later
      · exact le_rfl
      · have after := of_decide_eq_true ((List.pairwise_cons.mp sorted).1 last later)
        omega
    have notAbove : first.id ≤ last.id := by
      rcases List.mem_append.mp ((members first).mp List.mem_cons_self) with before | same
      · exact le_of_lt ((List.pairwise_append.mp increasing).2.2 first before last
          (List.mem_singleton_self _))
      · rw [List.mem_singleton.mp same]
    exact le_antisymm notAbove notBelow

theorem largestId_nil : largestId [] = 0 := by
  unfold largestId orderByIdDesc
  rw [List.mergeSort_nil]
  rfl

/-- The largest id in a table of numbered rows is the number of the last. -/
theorem largestId_numberFrom (number : Nat) (dumps : List Dump) :
    largestId (numberFrom number dumps) =
      if dumps = [] then 0 else ((number + dumps.length : Nat) : Int) := by
  induction dumps using List.reverseRecOn with
  | nil => rw [numberFrom, largestId_nil, if_pos rfl]
  | append_singleton dumps dump _ =>
    have increasing := @numberFrom_increasing number (dumps ++ [dump])
    rw [numberFrom_append] at increasing ⊢
    rw [numberFrom, numberFrom] at increasing ⊢
    rw [largestId_append increasing, if_neg (by simp), List.length_append]
    show ((number + dumps.length : Nat) : Int) + 1 = _
    push_cast
    simp [add_assoc]

theorem nextRowid_numberFrom (number : Nat) (dumps : List Dump) :
    nextRowid (numberFrom number dumps) =
      if dumps = [] then 1 else number + dumps.length + 1 := by
  unfold nextRowid
  induction dumps using List.reverseRecOn with
  | nil => rfl
  | append_singleton dumps dump inductionHypothesis =>
    have before : ((numberFrom number dumps).map Row.rowid).foldl max 0 ≤
        number + dumps.length := by
      by_cases empty : dumps = []
      · rw [if_pos empty] at inductionHypothesis
        omega
      · rw [if_neg empty] at inductionHypothesis
        omega
    rw [if_neg (by simp), numberFrom_append, List.map_append, List.foldl_append]
    show max _ (number + dumps.length + 1) + 1 = _
    rw [List.length_append, List.length_singleton]
    omega

/-- The deletion takes the first hundred rows. -/
theorem deleteOldest_numberFrom {number : Nat} {dumps : List Dump} (many : 100 ≤ dumps.length) :
    deleteOldest (numberFrom number dumps) = numberFrom (number + 100) (dumps.drop 100) := by
  have length : (dumps.take 100).length = 100 := by
    rw [List.length_take]
    omega
  have split : numberFrom number dumps =
      numberFrom number (dumps.take 100) ++ numberFrom (number + 100) (dumps.drop 100) := by
    conv_lhs => rw [← List.take_append_drop 100 dumps, numberFrom_append, length]
  have doomed : (numberFrom number dumps).take 100 = numberFrom number (dumps.take 100) := by
    rw [split]
    exact List.take_left' (by rw [numberFrom_length, length])
  unfold deleteOldest
  rw [orderById_of_increasing numberFrom_increasing, doomed, split, List.filter_append,
    List.filter_eq_nil_iff.mpr, List.filter_eq_self.mpr, List.nil_append]
  · intro row member
    obtain ⟨dump, _, place, above, _, rfl⟩ := mem_numberFrom member
    refine decide_eq_true fun listed => ?_
    obtain ⟨other, earlier, same⟩ := List.mem_map.mp listed
    obtain ⟨_, _, there, _, below, rfl⟩ := mem_numberFrom earlier
    have equal : there = place := same
    omega
  · intro row member
    rw [decide_eq_true_eq, not_not]
    exact List.mem_map_of_mem member

/-! ### The table after a history -/

/-- The table holds the last dumps of a history, numbered by their places in it. -/
structure Holds (history : List Dump) (db : Db) : Prop where
  given : db.given = (List.range history.length).map fun (place : Nat) => (place : Int) + 1
  rows : ∃ old stored, history = old ++ stored ∧ (stored = [] → old = []) ∧
    db.rows = numberFrom old.length stored

/-- The id that a new row is given. -/
theorem Holds.largestId {history : List Dump} {db : Db} (holds : Holds history db) :
    getIndexCnt db.rows = history.length := by
  obtain ⟨old, stored, rfl, all, rows⟩ := holds.rows
  unfold getIndexCnt
  rw [rows, largestId_numberFrom]
  by_cases empty : stored = []
  · rw [if_pos empty, empty, all empty]
    rfl
  · rw [if_neg empty, List.length_append]

theorem Holds.nextRowid {history : List Dump} {db : Db} (holds : Holds history db) :
    nextRowid db.rows = history.length + 1 := by
  obtain ⟨old, stored, rfl, all, rows⟩ := holds.rows
  rw [rows, nextRowid_numberFrom]
  by_cases empty : stored = []
  · rw [if_pos empty, empty, all empty]
    rfl
  · rw [if_neg empty, List.length_append]

/-- As long as the next id is an `int`, an insertion keeps the table as it should be. -/
theorem Holds.insertRecord {history : List Dump} {db : Db} (holds : Holds history db) (dump : Dump)
    (fits : history.length + 1 < 2 ^ 31) : Holds (history ++ [dump]) (db.insertRecord dump) := by
  have id : int (getIndexCnt db.rows + 1) = (history.length : Int) + 1 := by
    rw [holds.largestId]
    unfold int
    exact Int.bmod_eq_of_le (by omega) (by omega)
  have rowid := holds.nextRowid
  obtain ⟨old, stored, split, all, rows⟩ := holds.rows
  have length : old.length + stored.length = history.length := by
    rw [split, List.length_append]
  have appended : db.rows ++ [dump.row (Ipmain.nextRowid db.rows) (int (getIndexCnt db.rows + 1))] =
      numberFrom old.length (stored ++ [dump]) := by
    rw [id, rowid, numberFrom_append, length, rows]
    rfl
  constructor
  · show db.given ++ [int (getIndexCnt db.rows + 1)] = _
    rw [id, holds.given, List.length_append, List.length_singleton, List.range_succ,
      List.map_append]
    rfl
  · unfold Db.insertRecord
    dsimp only
    rw [appended, numberFrom_length]
    by_cases many : maxLogNumber < (stored ++ [dump]).length
    · rw [if_pos many]
      unfold maxLogNumber at many
      refine ⟨old ++ (stored ++ [dump]).take 100, (stored ++ [dump]).drop 100, ?_, ?_, ?_⟩
      · rw [List.append_assoc, List.take_append_drop, split, List.append_assoc]
      · intro none
        have := congrArg List.length none
        rw [List.length_drop, List.length_nil] at this
        omega
      · rw [deleteOldest_numberFrom (by omega), List.length_append, List.length_take,
          Nat.min_eq_left (by omega)]
    · rw [if_neg many]
      refine ⟨old, stored ++ [dump], ?_, ?_, rfl⟩
      · rw [split, List.append_assoc]
      · intro none
        exact absurd none (by simp)

theorem Db.after_append (history : List Dump) (dump : Dump) :
    Db.after (history ++ [dump]) = (Db.after history).insertRecord dump := by
  unfold Db.after
  rw [List.foldl_append]
  rfl

theorem holds_after {history : List Dump} (few : history.length < 2 ^ 31) :
    Holds history (Db.after history) := by
  induction history using List.reverseRecOn with
  | nil => exact ⟨rfl, [], [], rfl, fun _ => rfl, rfl⟩
  | append_singleton history dump inductionHypothesis =>
    rw [List.length_append, List.length_singleton] at few
    rw [Db.after_append]
    exact (inductionHypothesis (by omega)).insertRecord dump few

/-! ### What is sent again -/

/-- The dump is an acknowledgement with the result zero. -/
def Dump.acknowledges (acktype : Kind) (dump : Dump) : Bool :=
  match acktype, dump.content with
  | .alarmack, .alarmack result => result == 0
  | .changeack, .triginack result => result == 0
  | _, _ => false

/-- What is to be sent for an alarm. -/
def Dump.alarm (dump : Dump) : Option AlarmMessage :=
  match dump.content with
  | .alarminfo trig => some ⟨trig, dump.time⟩
  | _ => none

/-- What is to be sent for a change of the inputs. -/
def Dump.change (dump : Dump) : Option ChangeMessage :=
  match dump.content with
  | .trigininfo oldtrigin newtrigin => some ⟨oldtrigin, newtrigin, dump.time⟩
  | _ => none

/-- The search for acknowledgements finds those with the result zero. -/
theorem acknowledges_iff {acktype : Kind} (ack : acktype = .alarmack ∨ acktype = .changeack)
    (dump : Dump) (rowid : Nat) (id : Int) :
    decide ((dump.row rowid id).type = acktype ∧ (dump.row rowid id).state = ackedState) =
      dump.acknowledges acktype := by
  obtain ⟨content, time⟩ := dump
  rw [Bool.eq_iff_iff, decide_eq_true_eq]
  rcases ack with rfl | rfl <;> cases content <;>
    simp [Dump.row, Content.type, Content.state, Dump.acknowledges, printState_eq_zero_iff]

/-- A history ends in the dumps behind its last acknowledgement. -/
theorem exists_last_acknowledge (acked : Dump → Bool) (dumps : List Dump) :
    (∀ dump ∈ dumps, acked dump = false) ∨
      ∃ front ack since, dumps = front ++ ack :: since ∧ acked ack = true ∧
        ∀ dump ∈ since, acked dump = false := by
  induction dumps using List.reverseRecOn with
  | nil => exact Or.inl fun _ member => absurd member List.not_mem_nil
  | append_singleton dumps last inductionHypothesis =>
    by_cases newest : acked last = true
    · exact Or.inr ⟨dumps, last, [], rfl, newest, fun _ member => absurd member List.not_mem_nil⟩
    · rw [Bool.not_eq_true] at newest
      rcases inductionHypothesis with none | ⟨front, ack, since, split, found, clear⟩
      · refine Or.inl fun dump member => ?_
        rcases List.mem_append.mp member with before | same
        · exact none dump before
        · rwa [List.mem_singleton.mp same]
      · refine Or.inr ⟨front, ack, since ++ [last], ?_, found, fun dump member => ?_⟩
        · rw [split, List.append_assoc]
          rfl
        · rcases List.mem_append.mp member with before | same
          · exact clear dump before
          · rwa [List.mem_singleton.mp same]

/-- Sending that succeeds reaches every row. -/
theorem exec_of_succeeds {Message : Type} (callback : Row → Option Message) {send : Message → Int}
    (succeeds : ∀ message, send message = 0) (rows : List Row) :
    exec callback send rows = rows.filterMap callback := by
  induction rows with
  | nil => rfl
  | cons row rest inductionHypothesis =>
    rw [exec]
    cases called : callback row with
    | none => rw [List.filterMap_cons_none called, inductionHypothesis]
    | some message =>
      rw [List.filterMap_cons_some called]
      dsimp only
      rw [if_pos (succeeds message), inductionHypothesis]

/-- What is sent for numbered rows depends on the dumps alone. -/
theorem filterMap_numberFrom {Message : Type} {type : Kind} {callback : Row → Option Message}
    {message : Dump → Option Message}
    (sent : ∀ dump rowid id, (if (dump.row rowid id).type = type then callback (dump.row rowid id)
      else none) = message dump) (number : Nat) (dumps : List Dump) :
    ((numberFrom number dumps).filter fun row => row.type = type).filterMap callback =
      dumps.filterMap message := by
  induction dumps generalizing number with
  | nil => rfl
  | cons dump rest inductionHypothesis =>
    have here := sent dump (number + 1) (number + 1)
    rw [numberFrom]
    by_cases chosen : (dump.row (number + 1) (number + 1)).type = type
    · rw [if_pos chosen] at here
      rw [List.filter_cons, if_pos (decide_eq_true chosen), List.filterMap_cons,
        List.filterMap_cons, here, inductionHypothesis]
    · rw [if_neg chosen] at here
      rw [List.filter_cons, if_neg (mt of_decide_eq_true chosen), inductionHypothesis,
        List.filterMap_cons_none here.symm]

/-- The id of the last acknowledgement among numbered rows. -/
theorem findLastestAck_numberFrom {acktype : Kind}
    (ack : acktype = .alarmack ∨ acktype = .changeack) (number : Nat) {dumps since : List Dump}
    (clear : ∀ dump ∈ since, dump.acknowledges acktype = false)
    (last : dumps = [] ∨ ∃ front newest, dumps = front ++ [newest] ∧
      newest.acknowledges acktype = true) :
    findLastestAck acktype (numberFrom number (dumps ++ since)) =
      if dumps = [] then 0 else ((number + dumps.length : Nat) : Int) := by
  have none : (numberFrom (number + dumps.length) since).filter (fun row =>
      decide (row.type = acktype ∧ row.state = ackedState)) = [] := by
    rw [List.filter_eq_nil_iff]
    intro row member
    obtain ⟨dump, inside, place, _, _, rfl⟩ := mem_numberFrom member
    rw [acknowledges_iff ack, clear dump inside]
    exact Bool.false_ne_true
  unfold findLastestAck
  rw [numberFrom_append, List.filter_append, none, List.append_nil]
  rcases last with rfl | ⟨front, newest, rfl, found⟩
  · rw [if_pos rfl]
    exact largestId_nil
  · have kept : ∀ id : Int, ∀ rowid, [newest.row rowid id].filter (fun row =>
        decide (row.type = acktype ∧ row.state = ackedState)) = [newest.row rowid id] := by
      intro id rowid
      rw [List.filter_cons_of_pos (by rw [acknowledges_iff ack]; exact found), List.filter_nil]
    have increasing := (@numberFrom_increasing number (front ++ [newest])).filter fun row =>
      decide (row.type = acktype ∧ row.state = ackedState)
    rw [numberFrom_append, List.filter_append, numberFrom, numberFrom, kept] at increasing ⊢
    rw [largestId_append increasing, if_neg (by simp), List.length_append]
    show ((number + front.length : Nat) : Int) + 1 = _
    push_cast
    simp [add_assoc]

/-- The rows that are sent again are those behind the last acknowledgement. -/
theorem selectAfter_numberFrom {type acktype : Kind}
    (ack : acktype = .alarmack ∨ acktype = .changeack) (number : Nat) {dumps since : List Dump}
    (clear : ∀ dump ∈ since, dump.acknowledges acktype = false)
    (last : dumps = [] ∨ ∃ front newest, dumps = front ++ [newest] ∧
      newest.acknowledges acktype = true) :
    selectAfter type (findLastestAck acktype (numberFrom number (dumps ++ since)))
        (numberFrom number (dumps ++ since)) =
      (numberFrom (number + dumps.length) since).filter fun row => row.type = type := by
  rw [findLastestAck_numberFrom ack number clear last]
  have earlier : (numberFrom number dumps).filter (fun row => decide (row.type = type ∧
      (if dumps = [] then 0 else ((number + dumps.length : Nat) : Int)) < row.id)) = [] := by
    rw [List.filter_eq_nil_iff]
    intro row member
    obtain ⟨dump, inside, place, _, below, rfl⟩ := mem_numberFrom member
    rw [if_neg (List.ne_nil_of_mem inside), decide_eq_true_eq]
    rintro ⟨_, above⟩
    have above' : ((number + dumps.length : Nat) : Int) < (place : Int) := above
    omega
  have later : (numberFrom (number + dumps.length) since).filter (fun row =>
      decide (row.type = type ∧
        (if dumps = [] then 0 else ((number + dumps.length : Nat) : Int)) < row.id)) =
      (numberFrom (number + dumps.length) since).filter fun row => row.type = type := by
    refine List.filter_congr fun row member => ?_
    obtain ⟨dump, _, place, above, _, rfl⟩ := mem_numberFrom member
    have behind : (if dumps = [] then 0 else ((number + dumps.length : Nat) : Int)) <
        (dump.row place place).id := by
      show _ < (place : Int)
      split <;> omega
    simp only [behind, and_true]
  unfold selectAfter
  rw [numberFrom_append, List.filter_append, earlier, later, List.nil_append]
  exact orderById_of_increasing (numberFrom_increasing.filter _)

/-- What is sent again from the rows stored of a history. -/
theorem exec_selectAfter {Message : Type} {type acktype : Kind}
    (ack : acktype = .alarmack ∨ acktype = .changeack) {callback : Row → Option Message}
    {message : Dump → Option Message} {send : Message → Int}
    (sent : ∀ dump rowid id, (if (dump.row rowid id).type = type then callback (dump.row rowid id)
      else none) = message dump)
    (succeeds : ∀ message, send message = 0) (old stored : List Dump) :
    exec callback send (selectAfter type
        (findLastestAck acktype (numberFrom old.length stored)) (numberFrom old.length stored)) =
      (((old ++ stored).rtakeWhile fun dump => !dump.acknowledges acktype).rtake
        stored.length).filterMap message := by
  rcases exists_last_acknowledge (Dump.acknowledges acktype) stored with
    none | ⟨front, newest, since, rfl, found, clear⟩
  · -- No acknowledgement is stored: everything stored is behind the last one.
    have behind : ((old ++ stored).rtakeWhile fun dump => !dump.acknowledges acktype).rtake
        stored.length = stored := by
      rw [rtakeWhile_append_of_all fun dump member => by rw [none dump member]; rfl]
      exact rtake_append rfl
    have selected := @selectAfter_numberFrom type acktype ack old.length [] stored none (Or.inl rfl)
    rw [List.nil_append] at selected
    rw [selected, exec_of_succeeds _ succeeds, filterMap_numberFrom sent, behind]
  · have behind : ((old ++ (front ++ newest :: since)).rtakeWhile fun dump =>
        !dump.acknowledges acktype).rtake (front ++ newest :: since).length = since := by
      rw [← List.append_assoc, rtakeWhile_behind (by rw [found]; rfl)
        fun dump member => by rw [clear dump member]; rfl]
      refine rtake_of_length_le ?_
      rw [List.length_append, List.length_cons]
      omega
    have selected := @selectAfter_numberFrom type acktype ack old.length (front ++ [newest]) since
      clear (Or.inr ⟨front, newest, rfl, found⟩)
    rw [List.append_assoc, List.singleton_append] at selected
    rw [selected, exec_of_succeeds _ succeeds, filterMap_numberFrom sent, behind]

/-! ### The result -/

/-- What the table promises after a history: the ids increase in the order of insertion, the
rows are the last dumps, and what is sent again are the alarms and the changes stored of the
dumps behind the last acknowledgement, each as it was dumped. -/
structure Resends (history : List Dump) : Prop where
  increasing : (Db.after history).given.Pairwise (· < ·)
  ids : (Db.after history).rows.map Row.id =
    (Db.after history).given.rtake (Db.after history).rows.length
  stored : (Db.after history).rows.map (fun row => (row.type, row.state, row.time)) =
    (history.rtake (Db.after history).rows.length).map
      fun dump => (dump.content.type, dump.content.state, dump.time)
  alarms : ∀ behind send, (∀ message, send message = 0) →
    checkAlarmlog behind send (Db.after history).rows =
      ((history.rtakeWhile fun dump => !dump.acknowledges .alarmack).rtake
        (Db.after history).rows.length).filterMap Dump.alarm
  changes : ∀ behind stale, checkTriginlog behind stale (Db.after history).rows =
    ((history.rtakeWhile fun dump => !dump.acknowledges .changeack).rtake
      (Db.after history).rows.length).filterMap Dump.change

theorem resendAlarmCallback_row (behind : Text) (dump : Dump) (rowid : Nat) (id : Int) :
    (if (dump.row rowid id).type = .alarminfo then resendAlarmCallback behind (dump.row rowid id)
      else none) = dump.alarm := by
  obtain ⟨content, time⟩ := dump
  cases content with
  | alarminfo trig => exact resendAlarmCallback_alarm behind rowid trig time id
  | alarmack result => rfl
  | trigininfo oldtrigin newtrigin => rfl
  | triginack result => rfl

theorem resendTriginCallback_row (behind stale : Text) (dump : Dump) (rowid : Nat) (id : Int) :
    (if (dump.row rowid id).type = .change then
      resendTriginCallback behind stale (dump.row rowid id) else none) = dump.change := by
  obtain ⟨content, time⟩ := dump
  cases content with
  | trigininfo oldtrigin newtrigin =>
    exact resendTriginCallback_change behind stale rowid oldtrigin newtrigin time id
  | alarminfo trig => rfl
  | alarmack result => rfl
  | triginack result => rfl

theorem numberFrom_map_id (number : Nat) (dumps : List Dump) :
    (numberFrom number dumps).map Row.id =
      (List.range' number dumps.length).map fun (place : Nat) => (place : Int) + 1 := by
  induction dumps generalizing number with
  | nil => rfl
  | cons dump rest inductionHypothesis =>
    rw [numberFrom, List.map_cons, inductionHypothesis, List.length_cons, List.range'_succ,
      List.map_cons]
    rfl

theorem numberFrom_map_content (number : Nat) (dumps : List Dump) :
    (numberFrom number dumps).map (fun row => (row.type, row.state, row.time)) =
      dumps.map fun dump => (dump.content.type, dump.content.state, dump.time) := by
  induction dumps generalizing number with
  | nil => rfl
  | cons dump rest inductionHypothesis =>
    rw [numberFrom, List.map_cons, inductionHypothesis, List.map_cons]
    rfl

theorem range_increasing (count : Nat) :
    ((List.range count).map fun (place : Nat) => (place : Int) + 1).Pairwise (· < ·) := by
  rw [List.pairwise_map]
  exact List.pairwise_lt_range.imp fun less => by omega

/-- As long as the ids fit, the table keeps its promise. -/
theorem resends_of_few {history : List Dump} (few : history.length < 2 ^ 31) : Resends history := by
  have holds := holds_after few
  obtain ⟨old, stored, split, _, rows⟩ := holds.rows
  have length : (Db.after history).rows.length = stored.length := by
    rw [rows, numberFrom_length]
  constructor
  · rw [holds.given]
    exact range_increasing history.length
  · have parts : (List.range history.length).map (fun (place : Nat) => (place : Int) + 1) =
        (List.range old.length).map (fun (place : Nat) => (place : Int) + 1) ++
          (List.range' old.length stored.length).map fun (place : Nat) => (place : Int) + 1 := by
      rw [split, List.length_append, ← List.map_append, List.range_eq_range',
        List.range_eq_range', ← List.range'_append_1, Nat.zero_add]
    rw [length, holds.given, parts, rows, numberFrom_map_id]
    exact (rtake_append (by rw [List.length_map, List.length_range'])).symm
  · rw [length, rows, numberFrom_map_content, split, rtake_append rfl]
  · intro behind send succeeds
    rw [length, rows, split]
    exact exec_selectAfter (Or.inl rfl) (resendAlarmCallback_row behind) succeeds old stored
  · intro behind stale
    rw [length, rows, split]
    exact exec_selectAfter (Or.inr rfl) (resendTriginCallback_row behind stale) (fun _ => rfl)
      old stored

/-- The ids given are never taken back. -/
theorem given_append (front back : List Dump) :
    ∃ later, (Db.after (front ++ back)).given = (Db.after front).given ++ later := by
  induction back using List.reverseRecOn with
  | nil => exact ⟨[], by rw [List.append_nil, List.append_nil]⟩
  | append_singleton back dump inductionHypothesis =>
    obtain ⟨later, given⟩ := inductionHypothesis
    rw [← List.append_assoc, Db.after_append]
    refine ⟨later ++ [int (getIndexCnt (Db.after (front ++ back)).rows + 1)], ?_⟩
    rw [← List.append_assoc, ← given]
    rfl

/-- The id after the largest `int` is the smallest. -/
theorem not_increasing_of_many {history : List Dump} (many : 2 ^ 31 ≤ history.length) :
    ¬ (Db.after history).given.Pairwise (· < ·) := by
  obtain ⟨front, dump, back, rfl, length⟩ : ∃ front dump back, history = front ++ dump :: back ∧
      front.length = 2 ^ 31 - 1 := by
    have more : 2 ^ 31 - 1 < history.length := by omega
    refine ⟨history.take (2 ^ 31 - 1), history[2 ^ 31 - 1], history.drop (2 ^ 31 - 1 + 1), ?_, ?_⟩
    · conv_lhs => rw [← List.take_append_drop (2 ^ 31 - 1) history, List.drop_eq_getElem_cons more]
    · rw [List.length_take]
      omega
  have holds := @holds_after front (by omega)
  have first : (1 : Int) ∈ (Db.after front).given := by
    rw [holds.given, List.mem_map]
    exact ⟨0, List.mem_range.mpr (by omega), rfl⟩
  have id : int (getIndexCnt (Db.after front).rows + 1) = -2 ^ 31 := by
    rw [holds.largestId, length]
    decide
  obtain ⟨later, given⟩ := given_append (front ++ [dump]) back
  rw [List.append_assoc, List.singleton_append, Db.after_append] at given
  have last : (-2 ^ 31 : Int) ∈ [int (getIndexCnt (Db.after front).rows + 1)] ++ later := by
    rw [id]
    exact List.mem_append_left _ (List.mem_singleton_self _)
  have whole : (Db.after (front ++ dump :: back)).given =
      (Db.after front).given ++ ([int (getIndexCnt (Db.after front).rows + 1)] ++ later) := by
    rw [given, ← List.append_assoc]
    rfl
  rw [whole]
  intro increasing
  exact absurd ((List.pairwise_append.mp increasing).2.2 1 first _ last) (by decide)

/-- The promise is kept exactly until the number of insertions no longer fits into an `int`. -/
theorem resends_iff (history : List Dump) : Resends history ↔ history.length < 2 ^ 31 := by
  constructor
  · intro resends
    by_contra many
    exact not_increasing_of_many (not_lt.mp many) resends.increasing
  · exact resends_of_few

/-- The dump number `2^31` breaks the promise. -/
theorem too_many_alarms : ¬ Resends (List.replicate (2 ^ 31) ⟨.alarminfo 1, 0⟩) := by
  intro resends
  refine not_increasing_of_many ?_ resends.increasing
  rw [List.length_replicate]

end ExmOnvif.Ipmain
