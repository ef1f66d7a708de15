/-
This file is about what the receiving thread hands on: exactly when its index stays in the buffer
and its messages are those received.

While a message is open the buffer holds as many bytes as it has, and zeros elsewhere. Without a
failed read since the mark they lie at its beginning. With one the index is beyond them, or has
gone around, and then too few of them lie at the beginning to be the message.
-/

import ExmOnvif.Ipmain.GpsRecv

namespace ExmOnvif.Ipmain

open Library

namespace GpsRecv

/-! ### The string in the buffer -/

/-- A buffer that is clear but for a string holds this string. -/
theorem cString_store {string : List UInt8} (short : string.length < gpsBufSize)
    (noZero : 0 ∉ string) : cString (store (fun _ => 0) 0 string) = some string := by
  obtain ⟨rest, size⟩ := Nat.exists_eq_add_of_lt short
  have clear : load (store (fun _ => 0) 0 string) (0 + string.length) (rest + 1) =
      List.replicate (rest + 1) 0 := by
    refine List.ext_getElem (by rw [load_length, List.length_replicate]) fun offset _ _ => ?_
    rw [load_getElem, List.getElem_replicate]
    exact store_outside (Or.inr (by omega))
  have whole : load (store (fun _ => 0) 0 string) 0 gpsBufSize =
      string ++ List.replicate (rest + 1) 0 := by
    rw [size, Nat.add_assoc, load_add, load_store, clear]
  have zero : (0 : UInt8) ∈ string ++ List.replicate (rest + 1) 0 :=
    List.mem_append_right _ List.mem_cons_self
  have front : printed (string ++ List.replicate (rest + 1) 0) = string := by
    rw [printed, List.takeWhile_append_of_pos fun byte member =>
      decide_eq_true (ne_of_mem_of_not_mem member noZero)]
    exact List.append_nil _
  rw [cString, whole, if_pos zero, front]

section Read

variable {gpsBuf : Memory} {string : List UInt8} (found : cString gpsBuf = some string)

include found

theorem printed_of_cString : printed (load gpsBuf 0 gpsBufSize) = string :=
  Option.some.inj (Option.ite_none_right_eq_some.mp found).2

theorem zero_notMem_of_cString : 0 ∉ string := by
  rw [← printed_of_cString found]
  exact zero_notMem_printed _

theorem getElem_of_cString {place : Nat} (inside : place < string.length) :
    gpsBuf place = string[place] := by
  have front : string <+: load gpsBuf 0 gpsBufSize := by
    rw [← printed_of_cString found]
    exact printed_front _
  rw [front.getElem inside, load_getElem, Nat.zero_add]

end Read

/-! ### An open message in the buffer -/

/-- Where the bytes of an open message lie: at the beginning if no read has failed since its mark,
and otherwise no more of them than it has, with a gap in front of the index, or gone around. -/
structure Laid (taken : List (Option UInt8)) (thread : GpsRecv) (message : List UInt8) : Prop where
  whole : message.map some <:+ taken →
    thread.i = message.length ∧ thread.gpsBuf = store (fun _ => 0) 0 message
  noFeed : ∀ place, thread.gpsBuf place ≠ 10
  spread : ∃ places : Finset Nat, places.card ≤ message.length ∧
    (∀ place, thread.gpsBuf place ≠ 0 → place ∈ places) ∧
    ((message.length ≤ thread.i ∧ (¬message.map some <:+ taken → message.length < thread.i)) ∨
      ∃ place ∈ places, 2046 ≤ place)

section Laid

variable {taken : List (Option UInt8)} {thread : GpsRecv} {message : List UInt8} {byte : UInt8}

theorem openMessage_ne_nil (opened : openMessage taken = some message) : message ≠ [] := by
  obtain ⟨body, rfl, _⟩ := (openSegment_eq_some_iff _ _).mp opened
  exact List.cons_ne_nil _ _

/-- A message ends with the last byte received, and not with a failed read. -/
theorem not_suffix_concat_none (nonempty : message ≠ []) :
    ¬message.map some <:+ taken ++ [none] := by
  intro suffix
  rcases List.suffix_concat_iff.mp suffix with nil | ⟨earlier, same, _⟩
  · exact nonempty (List.map_eq_nil_iff.mp nil)
  · have last : none ∈ message.map some := by
      rw [same]
      exact List.mem_append_right _ (List.mem_singleton_self _)
    obtain ⟨_, _, faulty⟩ := List.mem_map.mp last
    cases faulty

theorem suffix_concat_some :
    (message ++ [byte]).map some <:+ taken ++ [some byte] ↔ message.map some <:+ taken := by
  rw [List.map_append, List.map_singleton, List.suffix_concat_iff]
  constructor
  · rintro (nil | ⟨earlier, same, suffix⟩)
    · exact absurd (List.append_eq_nil_iff.mp nil).2 (List.cons_ne_nil _ _)
    · rw [(List.append_inj' same rfl).1]
      exact suffix
  · exact fun suffix => Or.inr ⟨_, rfl, suffix⟩

/-- The mark begins a message. -/
theorem laid_dollar (thread : GpsRecv) :
    Laid (taken ++ [some dollar])
      { thread with gpsBuf := Function.update (fun _ => 0) 0 dollar, i := 1 } [dollar] := by
  have first : Function.update (fun _ => 0) 0 dollar = store (fun _ => 0) 0 [dollar] := by
    have empty := store_concat (fun _ => 0) 0 [] dollar
    rw [store_nil] at empty
    exact empty.symm
  refine ⟨fun _ => ⟨rfl, first⟩, fun place => ?_, {0}, Nat.le_refl _, fun place filled => ?_,
    Or.inl ⟨Nat.le_refl _, fun broken => absurd (List.suffix_append taken _) broken⟩⟩
  · show Function.update (fun _ => (0 : UInt8)) 0 dollar place ≠ 10
    by_cases here : place = 0
    · rw [here, Function.update_self]
      decide
    · rw [Function.update_of_ne here]
      decide
  · by_contra elsewhere
    have here : place ≠ 0 := fun here => elsewhere (Finset.mem_singleton.mpr here)
    have clear : Function.update (fun _ => (0 : UInt8)) 0 dollar place = 0 :=
      Function.update_of_ne here _ _
    exact filled clear

/-- A failed read leaves the bytes where they are, and a gap in front of the index. -/
theorem Laid.failed (laid : Laid taken thread message) (nonempty : message ≠ []) :
    Laid (taken ++ [none]) thread.failed message := by
  obtain ⟨places, few, filled, apart⟩ := laid.spread
  refine ⟨fun suffix => absurd suffix (not_suffix_concat_none nonempty), ?_, places, few, ?_, ?_⟩
  · rw [failed_gpsBuf]
    exact laid.noFeed
  · rw [failed_gpsBuf]
    exact filled
  · rw [failed_i]
    rcases apart with ⟨enough, _⟩ | around
    · exact Or.inl ⟨Nat.le_succ_of_le enough, fun _ => Nat.lt_succ_of_le enough⟩
    · exact Or.inr around

/-- A byte of the message takes one place more. -/
theorem Laid.plain (laid : Laid taken thread message) (short : message.length + 1 ≤ 2046)
    (goesOn : endsMessage byte = false) :
    Laid (taken ++ [some byte]) (thread.stored byte).checkIndex (message ++ [byte]) := by
  obtain ⟨places, few, filled, apart⟩ := laid.spread
  have other : byte ≠ 10 := by
    rintro rfl
    cases goesOn
  have index : (thread.stored byte).checkIndex.i =
      if 2047 ≤ thread.i + 1 then 0 else thread.i + 1 := checkIndex_i _
  have buffer : (thread.stored byte).checkIndex.gpsBuf =
      Function.update thread.gpsBuf thread.i byte := checkIndex_gpsBuf _
  have length : (message ++ [byte]).length = message.length + 1 := List.length_append
  refine ⟨fun suffix => ?_, fun place => ?_, insert thread.i places, ?_, fun place => ?_, ?_⟩
  · obtain ⟨whole, front⟩ := laid.whole (suffix_concat_some.mp suffix)
    rw [index, buffer, if_neg (by omega), length, store_concat, ← front, Nat.zero_add, whole]
    exact ⟨rfl, rfl⟩
  · rw [buffer]
    by_cases here : place = thread.i
    · rw [here, Function.update_self]
      exact other
    · rw [Function.update_of_ne here]
      exact laid.noFeed place
  · rw [length]
    exact (Finset.card_insert_le _ _).trans (Nat.succ_le_succ few)
  · rw [buffer]
    intro taken
    by_cases here : place = thread.i
    · rw [here]
      exact Finset.mem_insert_self _ _
    · rw [Function.update_of_ne here] at taken
      exact Finset.mem_insert_of_mem (filled place taken)
  · rw [index, length, suffix_concat_some]
    rcases apart with ⟨enough, gap⟩ | ⟨place, member, far⟩
    · by_cases last : 2047 ≤ thread.i + 1
      · exact Or.inr ⟨thread.i, Finset.mem_insert_self _ _, Nat.le_of_succ_le_succ last⟩
      · rw [if_neg last]
        exact Or.inl ⟨Nat.succ_le_succ enough, fun broken => Nat.succ_lt_succ (gap broken)⟩
    · exact Or.inr ⟨place, Finset.mem_insert_of_mem member, far⟩

/-- The string in the buffer at the end of the message is the message only if it was received
without a failed read, and has no zero in it. -/
theorem Laid.of_cString (laid : Laid taken thread message) (short : message.length ≤ 2046)
    (found : cString thread.atStart.gpsBuf = some (message ++ [10])) :
    message.map some <:+ taken ∧ 0 ∉ message := by
  have length : (message ++ [10]).length = message.length + 1 := List.length_append
  have last : thread.i = message.length := by
    have feed := getElem_of_cString found (show message.length < _ by omega)
    rw [List.getElem_append_right (Nat.le_refl _)] at feed
    by_contra elsewhere
    refine laid.noFeed message.length ?_
    rw [← Function.update_of_ne (Ne.symm elsewhere) 10 thread.gpsBuf]
    exact feed.trans (List.getElem_singleton _)
  have noZero : 0 ∉ message :=
    fun zero => zero_notMem_of_cString found (List.mem_append_left _ zero)
  obtain ⟨places, few, filled, apart⟩ := laid.spread
  have front : ∀ place < message.length, place ∈ places := by
    intro place inside
    have byte := getElem_of_cString found (show place < _ by omega)
    rw [List.getElem_append_left inside] at byte
    refine filled place ?_
    rw [← Function.update_of_ne (show place ≠ thread.i by omega) 10 thread.gpsBuf]
    rw [show Function.update thread.gpsBuf thread.i 10 place = message[place] from byte]
    exact ne_of_mem_of_not_mem (List.getElem_mem inside) noZero
  refine ⟨?_, noZero⟩
  by_contra broken
  rcases apart with ⟨_, gap⟩ | ⟨place, member, far⟩
  · exact absurd (gap broken) (by omega)
  · have more : insert place (Finset.range message.length) ⊆ places := by
      refine Finset.insert_subset member fun place inside => ?_
      exact front place (Finset.mem_range.mp inside)
    have outside : place ∉ Finset.range message.length := by
      rw [Finset.mem_range]
      omega
    have count := Finset.card_le_card more
    rw [Finset.card_insert_of_notMem outside, Finset.card_range] at count
    omega

end Laid

/-! ### Every sequence of reads -/

/-- A message that is handed on when it ends. -/
def Due (taken : List (Option UInt8)) (message : List UInt8) : Prop :=
  openMessage taken = some message ∧ message.length ≤ 2046

/-- Where the next byte goes, and whether the buffer begins with the mark. -/
structure Spot where
  i : Nat
  marked : Bool

/-- With each read the next byte goes one place further, and back to the beginning at the end of a
message or of the buffer. A failed read is not held against the end of the buffer. -/
def Spot.next (spot : Spot) : Option UInt8 → Spot
  | none => { spot with i := spot.i + 1 }
  | some byte =>
    if byte = dollar then ⟨1, true⟩
    else
      { i := if endsMessage byte ∨ 2047 ≤ spot.i + 1 then 0 else spot.i + 1
        marked := spot.marked && spot.i ≠ 0 }

/-- The same by the reads alone, from what the buffer begins with at first. -/
def spotAfter (first : UInt8) (taken : List (Option UInt8)) : Spot :=
  taken.foldl Spot.next ⟨0, first = dollar⟩

/-- No read fails with the index at the end of the buffer. A message of at most 2046 bytes ends
without a failed read since its mark and without a zero in it. Where none ends, the index is at
the beginning of the buffer, or there is no mark. -/
def Undisturbed (taken : List (Option UInt8)) (spot : Spot) : Option UInt8 → Prop
  | none => spot.i < 2047
  | some byte => endsMessage byte = true →
    (∃ message, Due taken message ∧ message.map some <:+ taken ∧ 0 ∉ message) ∨
      ((∀ message, ¬Due taken message) ∧ (spot.i = 0 ∨ spot.marked = false))

/-- The place of the thread. -/
def spot (thread : GpsRecv) : Spot := ⟨thread.i, thread.gpsBuf 0 = dollar⟩

/-- The index stays in the buffer, and what is handed on is what was received. -/
def Keeps (taken : List (Option UInt8)) (thread : GpsRecv) (result : Option UInt8) : Prop :=
  ∃ after, thread.turn result = some after ∧ after.i ≤ 2047 ∧
    after.handed = messages (taken ++ [result])

section Keeps

variable {taken : List (Option UInt8)} {thread : GpsRecv} {message : List UInt8} {byte : UInt8}
  (running : thread.running = true) (inside : thread.i ≤ 2047)
  (handed : thread.handed = messages taken)

include running inside handed

omit inside in
theorem keeps_failed_iff : Keeps taken thread none ↔ thread.i < 2047 := by
  unfold Keeps
  rw [turn_failed running]
  constructor
  · rintro ⟨after, turned, index, _⟩
    rw [← Option.some.inj turned, failed_i] at index
    exact index
  · intro index
    refine ⟨_, rfl, ?_, ?_⟩
    · rw [failed_i]
      exact index
    · rw [failed_handed, messages_concat_none, handed]

theorem keeps_plain (goesOn : endsMessage byte = false) : Keeps taken thread (some byte) := by
  have same : messages (taken ++ [some byte]) = messages taken := messages_concat_plain goesOn
  by_cases marked : byte = dollar
  · subst marked
    exact ⟨_, (turn_received running inside).trans (received_dollar _),
      show 1 ≤ 2047 by decide, handed.trans same.symm⟩
  · refine ⟨_, (turn_received running inside).trans (received_plain marked goesOn), ?_, ?_⟩
    · rw [checkIndex_i]
      show (if 2047 ≤ thread.i + 1 then 0 else thread.i + 1) ≤ 2047
      split <;> omega
    · rw [checkIndex_handed]
      exact handed.trans same.symm

/-- At the end of a message that is due. -/
theorem keeps_due_iff (ends : endsMessage byte = true) (due : Due taken message)
    (laid : Laid taken thread message) :
    Keeps taken thread (some byte) ↔ message.map some <:+ taken ∧ 0 ∉ message := by
  have more := messages_concat_short ends due.1 due.2
  unfold Keeps
  rw [turn_end running inside ends, more, ← handed]
  constructor
  · rintro ⟨after, turned, _, both⟩
    split at turned
    · obtain ⟨info, found, rfl⟩ := Option.map_eq_some_iff.mp turned
      have same : info = message ++ [10] :=
        List.singleton_inj.mp (List.append_cancel_left both)
      exact laid.of_cString due.2 (same ▸ found)
    · cases turned
      have length := congrArg List.length both
      rw [List.length_append] at length
      exact absurd length (Nat.ne_of_lt (Nat.lt_succ_self _))
  · rintro ⟨suffix, noZero⟩
    obtain ⟨whole, buffer⟩ := laid.whole suffix
    obtain ⟨body, rfl, _⟩ := (openSegment_eq_some_iff _ _).mp due.1
    have short := due.2
    have front : thread.i ≠ 0 ∧ thread.gpsBuf 0 = dollar := by
      rw [whole, buffer]
      exact ⟨Nat.succ_ne_zero _, rfl⟩
    have found : cString thread.atStart.gpsBuf = some (dollar :: body ++ [10]) := by
      have string := store_concat (fun _ => 0) 0 (dollar :: body) 10
      rw [Nat.zero_add, ← whole, ← buffer] at string
      show cString (Function.update thread.gpsBuf thread.i 10) = _
      rw [← string]
      refine cString_store ?_ fun zero => ?_
      · rw [List.length_append]
        exact Nat.lt_of_le_of_lt (Nat.succ_le_succ short) (by decide)
      · rcases List.mem_append.mp zero with old | feed
        · exact noZero old
        · exact absurd (List.mem_singleton.mp feed) (by decide)
    rw [if_pos front, found]
    exact ⟨_, rfl, Nat.zero_le _, rfl⟩

/-- At the end of anything else. -/
theorem keeps_stray_iff (ends : endsMessage byte = true) (none : ∀ message, ¬Due taken message) :
    Keeps taken thread (some byte) ↔ thread.i = 0 ∨ thread.gpsBuf 0 ≠ dollar := by
  have same : messages (taken ++ [some byte]) = messages taken :=
    messages_concat_long ends fun message opened =>
      Nat.lt_of_not_le fun short => none message ⟨opened, short⟩
  unfold Keeps
  rw [turn_end running inside ends, same, ← handed]
  constructor
  · rintro ⟨after, turned, _, both⟩
    by_contra stray
    rw [not_or, not_not] at stray
    rw [if_pos stray] at turned
    obtain ⟨info, _, rfl⟩ := Option.map_eq_some_iff.mp turned
    have length := congrArg List.length both
    rw [List.length_append] at length
    exact absurd length (Nat.ne_of_gt (Nat.lt_succ_self _))
  · intro clear
    rw [if_neg fun both => clear.elim both.1 fun other => other both.2]
    exact ⟨_, rfl, Nat.zero_le _, rfl⟩

theorem keeps_iff (laid : ∀ message, Due taken message → Laid taken thread message)
    (result : Option UInt8) :
    Keeps taken thread result ↔ Undisturbed taken thread.spot result := by
  cases result with
  | none => exact keeps_failed_iff running handed
  | some byte =>
    cases ends : endsMessage byte with
    | false =>
      refine iff_of_true (keeps_plain running inside handed ends) fun other => ?_
      rw [ends] at other
      cases other
    | true =>
      have atEnd : Undisturbed taken thread.spot (some byte) ↔ _ := imp_iff_right ends
      have unmarked : thread.spot.marked = false ↔ thread.gpsBuf 0 ≠ dollar :=
        decide_eq_false_iff_not
      rw [atEnd, unmarked]
      by_cases any : ∃ message, Due taken message
      · obtain ⟨message, due⟩ := any
        rw [keeps_due_iff running inside handed ends due (laid message due),
          or_iff_left fun stray => stray.1 message due]
        constructor
        · exact fun clean => ⟨message, due, clean⟩
        · rintro ⟨other, opened, clean⟩
          rw [Option.some.inj (due.1.symm.trans opened.1)]
          exact clean
      · have none := not_exists.mp any
        rw [keeps_stray_iff running inside handed ends none,
          or_iff_right fun (clean : ∃ message, _) => any ⟨clean.choose, clean.choose_spec.1⟩,
          and_iff_right none]
        rfl

end Keeps

/-- One read moves the place as the reads say. -/
theorem turn_spot {thread after : GpsRecv} {result : Option UInt8}
    (turned : thread.turn result = some after) : after.spot = thread.spot.next result := by
  have running := (turn_cases turned).1
  cases result with
  | none =>
    rw [turn_failed running] at turned
    cases turned
    rw [spot, failed_i, failed_gpsBuf]
    rfl
  | some byte =>
    have inside : thread.i ≤ 2047 := by
      by_contra outside
      rw [turn, if_pos running] at turned
      rw [if_neg (show ¬thread.i < gpsBufSize by unfold gpsBufSize; omega)] at turned
      cases turned
    -- what is stored at the index changes the front only at the beginning of the buffer
    have front {other : UInt8} (unmarked : other ≠ dollar) :
        decide (Function.update thread.gpsBuf thread.i other 0 = dollar) =
          (thread.spot.marked && decide (thread.i ≠ 0)) := by
      by_cases start : thread.i = 0
      · rw [start, Function.update_self, decide_eq_false unmarked]
        simp
      · rw [Function.update_of_ne (Ne.symm start), decide_eq_true start, Bool.and_true]
        rfl
    by_cases marked : byte = dollar
    · subst marked
      rw [turn_received running inside, received_dollar] at turned
      cases turned
      rfl
    · rw [Spot.next, if_neg marked]
      cases ends : endsMessage byte with
      | false =>
        rw [turn_received running inside, received_plain marked ends] at turned
        cases turned
        rw [spot, checkIndex_i, checkIndex_gpsBuf]
        exact congrArg₂ Spot.mk (if_congr (by simp [stored, spot]) rfl rfl) (front marked)
      | true =>
        have placed : after.spot = thread.atStart.spot := by
          rw [turn_end running inside ends] at turned
          split at turned
          · obtain ⟨info, _, rfl⟩ := Option.map_eq_some_iff.mp turned
            rfl
          · cases turned
            rfl
        rw [placed, spot]
        exact congrArg₂ Spot.mk (if_pos (Or.inl rfl)).symm (front (by decide))

/-- One read keeps an open message in the buffer. -/
theorem laid_turn {taken : List (Option UInt8)} {thread after : GpsRecv} {result : Option UInt8}
    {message : List UInt8} (running : thread.running = true) (inside : thread.i ≤ 2047)
    (laid : ∀ message, Due taken message → Laid taken thread message)
    (turned : thread.turn result = some after) (due : Due (taken ++ [result]) message) :
    Laid (taken ++ [result]) after message := by
  obtain ⟨opened, short⟩ := due
  cases result with
  | none =>
    rw [turn_failed running] at turned
    cases turned
    rw [openMessage_concat_none] at opened
    exact (laid message ⟨opened, short⟩).failed (openMessage_ne_nil opened)
  | some byte =>
    rw [turn_received running inside] at turned
    rw [openMessage_concat_some, extend_eq_some_iff] at opened
    rcases opened with ⟨rfl, rfl⟩ | ⟨⟨unmarked, goesOn⟩, earlier, opened, rfl⟩
    · rw [received_dollar] at turned
      cases turned
      exact laid_dollar (thread.stored dollar)
    · rw [received_plain unmarked goesOn] at turned
      cases turned
      rw [List.length_append, List.length_singleton] at short
      exact (laid earlier ⟨opened, Nat.le_of_succ_le short⟩).plain short goesOn

theorem Assembles.prefix_of {start : GpsRecv} {taken results : List (Option UInt8)}
    (right : start.Assembles results) (within : taken <+: results) : start.Assembles taken :=
  fun _ before => right _ (before.trans within)

/-- A read that keeps it right is one more. -/
theorem Assembles.concat {start thread : GpsRecv} {taken : List (Option UInt8)}
    {result : Option UInt8} (right : start.Assembles taken)
    (reached : start.run taken = some thread) (keeps : Keeps taken thread result) :
    start.Assembles (taken ++ [result]) := by
  intro before shorter
  rcases List.prefix_concat_iff.mp shorter with rfl | earlier
  · rw [run_concat, reached, Option.bind_some]
    exact keeps
  · exact right before earlier

section Run

variable {gpsBuf : Memory} {gpsState posState : Int} {results taken : List (Option UInt8)}
  {thread : GpsRecv} (tolerated : Tolerated results)

include tolerated

/-- Up to where the thread has been right, an open message lies in the buffer. -/
theorem laid_of_assembles (within : taken <+: results)
    (right : (begun gpsBuf gpsState posState).Assembles taken)
    (reached : (begun gpsBuf gpsState posState).run taken = some thread) (message : List UInt8)
    (due : Due taken message) : Laid taken thread message := by
  induction taken using List.reverseRecOn generalizing thread message with
  | nil => cases due.1
  | append_singleton taken result inductionHypothesis =>
    have front : taken <+: taken ++ [result] := List.prefix_append taken [result]
    obtain ⟨before, earlier, inside, _⟩ := right taken front
    rw [run_concat, earlier, Option.bind_some] at reached
    exact laid_turn (running_of_tolerated tolerated (front.trans within) earlier) inside
      (inductionHypothesis (front.trans within) (right.prefix_of front) earlier) reached due

omit tolerated in
/-- The place of the thread is where the reads put it. -/
theorem run_spot (reached : (begun gpsBuf gpsState posState).run taken = some thread) :
    thread.spot = spotAfter (gpsBuf 0) taken := by
  induction taken using List.reverseRecOn generalizing thread with
  | nil =>
    cases reached
    rfl
  | append_singleton taken result inductionHypothesis =>
    rw [run_concat] at reached
    obtain ⟨before, earlier, turned⟩ := Option.bind_eq_some_iff.mp reached
    rw [turn_spot turned, inductionHypothesis earlier, spotAfter, spotAfter, List.foldl_append]
    rfl

/-- For every content of the buffer and every sequence of reads whose failures do not end the loop:
the index stays in the buffer, and the messages handed on are those received, after every read, if
and only if no read is disturbed by those before it. -/
theorem assembles_iff_undisturbed :
    (begun gpsBuf gpsState posState).Assembles results ↔
      ∀ taken result, taken ++ [result] <+: results →
        Undisturbed taken (spotAfter (gpsBuf 0) taken) result := by
  constructor
  · intro right taken result before
    have front : taken <+: results := (List.prefix_append taken [result]).trans before
    obtain ⟨thread, reached, inside, handed⟩ := right taken front
    obtain ⟨after, moved, index, list⟩ := right _ before
    rw [run_concat, reached, Option.bind_some] at moved
    rw [← run_spot reached]
    refine (keeps_iff (running_of_tolerated tolerated front reached) inside handed ?_ result).mp
      ⟨after, moved, index, list⟩
    exact laid_of_assembles tolerated front (right.prefix_of front) reached
  · intro undisturbed
    have every : ∀ taken, taken <+: results →
        (begun gpsBuf gpsState posState).Assembles taken := by
      intro taken
      -- the reads are taken back one by one, to the thread in front of its loop
      induction taken using List.reverseRecOn with
      | nil =>
        intro _ before within
        rw [List.prefix_nil.mp within]
        exact ⟨_, rfl, Nat.zero_le _, rfl⟩
      | append_singleton taken result inductionHypothesis =>
        intro within
        have front : taken <+: results := (List.prefix_append taken [result]).trans within
        have right := inductionHypothesis front
        obtain ⟨thread, reached, inside, handed⟩ := right taken List.prefix_rfl
        have free := undisturbed taken result within
        rw [← run_spot reached] at free
        refine right.concat reached ((keeps_iff (running_of_tolerated tolerated front reached)
          inside handed ?_ result).mpr free)
        exact laid_of_assembles tolerated front right reached
    exact every results List.prefix_rfl

end Run

theorem tolerated_of_length {results : List (Option UInt8)}
    (short : results.length < errReadMax + 2) : Tolerated results := by
  intro all
  have length := all.length_le
  rw [List.length_replicate] at length
  exact absurd length (Nat.not_le.mpr short)

/-- A failed read, and a message of two bytes that ends with a carriage return and a line feed. -/
def aMessage : List (Option UInt8) := [none, some 36, some 65, some 13, some 10]

/-- It is handed on, and the line feed finds the index at the beginning. -/
theorem assembles_iff_undisturbed_message :
    Tolerated aMessage ∧ messages aMessage = [[36, 65, 10]] ∧
      (begun (fun _ => 0) 0 0).Assembles aMessage ∧
      ∀ taken result, taken ++ [result] <+: aMessage →
        Undisturbed taken (spotAfter 0 taken) result := by
  have tolerated : Tolerated aMessage := tolerated_of_length (by decide)
  have right : (begun (fun _ => 0) 0 0).Assembles aMessage := by
    intro taken within
    have evaluated : ∀ taken ∈ aMessage.inits, ((begun (fun _ => 0) 0 0).run taken).any
        (fun thread => thread.i ≤ 2047 ∧ thread.handed = messages taken) = true := by
      decide +kernel
    obtain ⟨thread, reached, holds⟩ :=
      (Option.any_eq_true _ _).mp (evaluated taken ((List.mem_inits _ _).mpr within))
    exact ⟨thread, reached, of_decide_eq_true holds⟩
  exact ⟨tolerated, by decide +kernel, right, (assembles_iff_undisturbed tolerated).mp right⟩

/-- The same message, with the read that fails behind the carriage return. -/
def aGap : List (Option UInt8) := [some 36, some 65, some 13, none, some 10]

/-- The line feed is stored behind the mark of the message before it, and what the buffer begins
with is handed on as another message. -/
theorem gap_hands_on_twice :
    Tolerated aGap ∧ messages aGap = [[36, 65, 10]] ∧
      (∃ thread, (begun (fun _ => 0) 0 0).run aGap = some thread ∧
        thread.handed = [[36, 65, 10], [36, 10, 10]]) ∧
      ¬(begun (fun _ => 0) 0 0).Assembles aGap := by
  have twice : ((begun (fun _ => 0) 0 0).run aGap).map handed =
      some [[36, 65, 10], [36, 10, 10]] := by decide +kernel
  obtain ⟨thread, reached, both⟩ := Option.map_eq_some_iff.mp twice
  have once : messages aGap = [[36, 65, 10]] := by decide +kernel
  refine ⟨tolerated_of_length (by decide), once, ⟨thread, reached, both⟩, fun right => ?_⟩
  obtain ⟨same, found, _, right⟩ := right aGap List.prefix_rfl
  obtain rfl : same = thread := Option.some.inj (found.symm.trans reached)
  rw [both, once] at right
  exact absurd right (by decide)

/-- While nothing is received the index moves on, up to the failed read that ends the loop. -/
theorem run_failed (gpsBuf : Memory) (gpsState posState : Int) {reads : Nat}
    (few : reads ≤ errReadMax + 1) :
    ∃ thread, (begun gpsBuf gpsState posState).run (List.replicate reads none) = some thread ∧
      thread.running = true ∧ thread.errReadCnt = reads ∧ thread.i = reads := by
  induction reads with
  | zero => exact ⟨_, rfl, rfl, rfl, rfl⟩
  | succ reads inductionHypothesis =>
    obtain ⟨thread, reached, running, count, index⟩ :=
      inductionHypothesis (Nat.le_of_succ_le few)
    have tolerated : ¬errReadMax < thread.errReadCnt := by omega
    refine ⟨thread.failed, ?_, ?_, ?_, ?_⟩
    · rw [List.replicate_succ', run_concat, reached, Option.bind_some, turn_failed running]
    · rw [failed, if_neg tolerated]
      exact running
    · rw [failed_errReadCnt, count]
    · rw [failed_i, index]

/-- So more than 2047 reads in vain take it out of the buffer. -/
theorem failed_reads_leave_buffer (gpsBuf : Memory) (gpsState posState : Int) {reads : Nat}
    (many : 2047 < reads) (few : reads ≤ errReadMax + 1) :
    ¬(begun gpsBuf gpsState posState).Assembles (List.replicate reads none) := by
  intro right
  obtain ⟨thread, reached, _, _, index⟩ := run_failed gpsBuf gpsState posState few
  obtain ⟨same, found, inside, _⟩ := right _ List.prefix_rfl
  obtain rfl : same = thread := Option.some.inj (found.symm.trans reached)
  omega

end GpsRecv

end ExmOnvif.Ipmain
