import Ttm50.ProbeDriver
import Ttm50.TargetBuffer

/-! # What the probe reports

    The report lists the units that answer, in the order of their addresses,
    one line of 56 characters each (`main_reports`), and nothing of it is lost:
    two reports agree only if they list the same (`report_inj`).

    A TRAM that runs the example target driver is among them: whatever other
    initiators do, the probe finds the driver's own inquiry data on every
    logical unit (`target_listed`). -/

namespace ProbeResults

open InteractivePrograms ByteBuffers CPrintf ProbeDriver
open DiskTestDriver (Address Command Reply)

/-! ## The report -/

/-- A unit that answers: its type and its printable identification. -/
structure Entry where
  address : Address
  type : Nat
  vendor : List Char
  product : List Char
  revision : List Char
  deriving DecidableEq, Repr

/-- The characters that `print_data` makes of a text. -/
def shown (data : List Byte) : List Char :=
  data.map (fun b => if isPrint b then Char.ofNat b.toNat else ' ')

/-- What an answer to the inquiry says about the unit, if there is one. -/
def entry (address : Address) (reply : Reply) : Option Entry :=
  let inquiry := inquiryRecord reply.data
  -- nothing has come, or it says that there is no device
  if (reply.result ≠ 0 ∨ reply.residue = inquirySize) ∨
      (ProbeDriver.type inquiry = sdevUnknown ∨
        qualifier inquiry = squalNoDevice)
  then none
  else some
    { address := address
      type := ProbeDriver.type inquiry
      vendor := shown (ProbeDriver.vendor inquiry)
      product := shown (ProbeDriver.product inquiry)
      revision := shown (ProbeDriver.revision inquiry) }

/-- The column of an address. -/
def addressColumn (address : Address) : List Char :=
  formatted " %d  %d  " [.int address.id, .int address.lun]

/-- The column of a device type. -/
def typeColumn (type : Nat) : List Char :=
  if type < maxDeviceType then
    formatted "%- 17s " [.str (deviceType.getD type "").toList]
  else formatted "Type 0x%02x         " [.int type]

/-- A line of the report. -/
def line (e : Entry) : List Char :=
  addressColumn e.address ++ typeColumn e.type ++ e.vendor ++ [' ']
    ++ e.product ++ [' '] ++ e.revision ++ ['\n']

/-- What precedes the lines. -/
def heading (id : Int) : List Char :=
  formatted "SCSI TRAM id is %d.\n" [.int id] ++ formatted "\n" []
    ++ formatted "% 2s % 3s %- 17s %- 8s %- 16s %- 8s\n"
      [.str "Id".toList, .str "LUN".toList, .str "Device Type".toList,
        .str "Vendor".toList, .str "Product".toList, .str "Revision".toList]

/-- The units listed. -/
def listed (answers : List (Address × Reply)) : List Entry :=
  answers.filterMap (fun a => entry a.1 a.2)

/-- The report on the answers to the inquiries. -/
def report (id : Int) (answers : List (Address × Reply)) : List Char :=
  heading id ++ (listed answers).flatMap line ++ ['\n']

/-- The first `n` units of an id. -/
def unitsOf (id n : Nat) : List Address :=
  (List.range n).map (fun lun => ⟨id, lun⟩)

/-- All units of the ids below `n` other than the TRAM's own, in the order of
    their addresses. -/
def units (own : Int) (n : Nat) : List Address :=
  ((List.range n).filter (fun id : Nat => (id : Int) ≠ own)).flatMap
    (fun id => unitsOf id 8)

/-! ## The surroundings -/

/-- The library's variable, the inquiries that have been answered, and what
    has been written. -/
structure Desk where
  scsiId : Int
  answers : List (Address × Reply)
  text : List Char

/-- `scsi_initialise` sets `scsi_id`; commands have any answer. -/
def bus : Env ProbeOp ProbeOp.Res Desk
  | w, .scsiInitialise, id, w' => w' = { w with scsiId := id }
  | w, .scsiId, id, w' => id = w.scsiId ∧ w' = w
  | w, .scsiResetBus, _, w' => w' = w
  | w, .scsiCommand address _, reply, w' =>
      w' = { w with answers := w.answers ++ [(address, reply)] }
  | w, .printf format args, _, w' =>
      w' = { w with text := w.text ++ formatted format args }
  | w, .putchar c, _, w' => w' = { w with text := w.text ++ [c] }

/-- Every command is the inquiry of the unit whose turn it is. -/
def InTurn (w : Desk) : ProbeOp → Prop
  | .scsiCommand address command =>
      command = inquiryCommand address ∧
        w.answers.map Prod.fst ++ [address] <+: units w.scsiId 8
  | _ => True

/-! ## The units in order -/

theorem units_succ (own : Int) (n : Nat) :
    units own (n + 1)
      = units own n ++ if (n : Int) ≠ own then unitsOf n 8 else [] := by
  rw [units, units, List.range_succ, List.filter_append, List.flatMap_append]
  congr 1
  by_cases h : (n : Int) ≠ own
  · simp [h]
  · simp [h]

theorem units_initial (own : Int) {n m : Nat} (h : n ≤ m) :
    units own n <+: units own m := by
  induction m with
  | zero =>
      obtain rfl : n = 0 := by omega
      exact List.prefix_refl _
  | succ m ih =>
      by_cases hm : n = m + 1
      · rw [hm]
      · exact (ih (by omega)).trans ⟨_, (units_succ own m).symm⟩

theorem unitsOf_succ (id n : Nat) :
    unitsOf id (n + 1) = unitsOf id n ++ [⟨id, n⟩] := by
  rw [unitsOf, unitsOf, List.range_succ, List.map_append, List.map_singleton]

theorem unitsOf_initial (id : Nat) {n : Nat} (h : n ≤ 8) :
    unitsOf id n <+: unitsOf id 8 := by
  have htake : (List.range 8).take n = List.range n := by
    rw [List.take_range, Nat.min_eq_left h]
  rw [unitsOf, unitsOf, ← htake]
  exact (List.take_prefix n _).map _

/-- The next unit in turn. -/
theorem next_in_turn {own : Int} {id lun : Nat} (hid : id < 8) (hlun : lun < 8)
    (hne : (id : Int) ≠ own) :
    units own id ++ unitsOf id lun ++ [⟨id, lun⟩] <+: units own 8 := by
  have hstep : units own id ++ unitsOf id 8 <+: units own 8 := by
    have h := units_initial own (show id + 1 ≤ 8 by omega)
    rw [units_succ, if_pos hne] at h
    exact h
  refine List.IsPrefix.trans ?_ hstep
  rw [List.append_assoc, ← unitsOf_succ]
  exact (List.prefix_append_right_inj _).mpr (unitsOf_initial id (by omega))

/-! ## `probe_unit` -/

section Unit

variable {E : Nat → Desk → Prop} {Q : Unit → Desk → Prop} {w : Desk}

theorem wp_printf {format : String} {args : List Value}
    (h : Q () { w with text := w.text ++ formatted format args }) :
    wp bus InTurn Q E (printf format args) w := by
  refine ⟨trivial, ?_⟩
  rintro r w' rfl
  exact h

theorem wp_putchar {c : Char} (h : Q () { w with text := w.text ++ [c] }) :
    wp bus InTurn Q E (putchar c) w := by
  refine ⟨trivial, ?_⟩
  rintro r w' rfl
  exact h

theorem wp_printData {data : List Byte}
    (h : Q () { w with text := w.text ++ shown data }) :
    wp bus InTurn Q E (printData data) w := by
  induction data generalizing w with
  | nil =>
      rw [show shown [] = [] from rfl, List.append_nil] at h
      exact h
  | cons b data ih =>
      have hrest : Q () { w with text := (w.text
          ++ [if isPrint b then Char.ofNat b.toNat else ' ']) ++ shown data } := by
        rw [List.append_assoc]
        exact h
      show wp bus InTurn Q E ((if isPrint b then putchar (Char.ofNat b.toNat)
        else putchar ' ') >>= fun _ => printData data) w
      refine (wp_bind _ _ _).mpr ?_
      by_cases hb : isPrint b
      · rw [if_pos hb] at hrest ⊢
        exact wp_putchar (ih hrest)
      · rw [if_neg hb] at hrest ⊢
        exact wp_putchar (ih hrest)

/-- The message for the type is its column. -/
theorem wp_typeColumn {type : Nat}
    (h : Q () { w with text := w.text ++ typeColumn type }) :
    wp bus InTurn Q E
      (if type < maxDeviceType then
        printf "%- 17s " [.str (deviceType.getD type "").toList]
      else printf "Type 0x%02x         " [.int type]) w := by
  rw [typeColumn] at h
  by_cases ht : type < maxDeviceType
  · rw [if_pos ht] at h ⊢
    exact wp_printf h
  · rw [if_neg ht] at h ⊢
    exact wp_printf h

/-- **ONE UNIT**: one inquiry, and a line if there is an entry. -/
theorem wp_probeUnit {address : Address}
    (hturn : w.answers.map Prod.fst ++ [address] <+: units w.scsiId 8)
    (h : ∀ reply, Q () { w with
      answers := w.answers ++ [(address, reply)]
      text := w.text ++ (entry address reply).toList.flatMap line }) :
    wp bus InTurn Q E (probeUnit address) w := by
  refine ⟨⟨rfl, hturn⟩, ?_⟩
  rintro reply w' rfl
  specialize h reply
  rw [entry] at h
  dsimp only [Prog.bind]
  rw [← ite_or, ← ite_or]
  by_cases hnone : (reply.result ≠ 0 ∨ reply.residue = inquirySize) ∨
      (ProbeDriver.type (inquiryRecord reply.data) = sdevUnknown ∨
        qualifier (inquiryRecord reply.data) = squalNoDevice)
  · simp only [if_pos hnone, Option.toList_none, List.flatMap_nil,
      List.append_nil] at h
    rw [if_pos hnone]
    exact h
  · simp only [if_neg hnone, Option.toList_some, List.flatMap_singleton, line,
      ← List.append_assoc] at h
    rw [if_neg hnone]
    refine (wp_bind _ _ _).mpr (wp_printf ?_)
    refine (wp_bind _ _ _).mpr (wp_typeColumn ?_)
    refine (wp_bind _ _ _).mpr (wp_printData ?_)
    refine (wp_bind _ _ _).mpr (wp_putchar ?_)
    refine (wp_bind _ _ _).mpr (wp_printData ?_)
    refine (wp_bind _ _ _).mpr (wp_putchar ?_)
    refine (wp_bind _ _ _).mpr (wp_printData ?_)
    exact wp_putchar h

end Unit

/-! ## The loops -/

/-- The desk after the inquiries of some units. -/
structure Asked (own : Int) (asked : List Address) (w : Desk) : Prop where
  scsiId : w.scsiId = own
  asked : w.answers.map Prod.fst = asked
  text : w.text = heading own ++ (listed w.answers).flatMap line

theorem listed_snoc (answers : List (Address × Reply)) (address : Address)
    (reply : Reply) :
    listed (answers ++ [(address, reply)])
      = listed answers ++ (entry address reply).toList := by
  rw [listed, listed, List.filterMap_append]
  congr 1

/-- The step lemma: one more unit. -/
theorem asked_snoc {own : Int} {asked : List Address} {w : Desk}
    (h : Asked own asked w) (address : Address) (reply : Reply) :
    Asked own (asked ++ [address]) { w with
      answers := w.answers ++ [(address, reply)]
      text := w.text ++ (entry address reply).toList.flatMap line } where
  scsiId := h.scsiId
  asked := by
    show (w.answers ++ [(address, reply)]).map Prod.fst = _
    rw [List.map_append, h.asked, List.map_singleton]
  text := by
    show w.text ++ _ = heading own ++ (listed (w.answers ++ [(address, reply)])).flatMap line
    rw [h.text, listed_snoc, List.flatMap_append, List.append_assoc]

/-- The loop over the units of an id. -/
theorem wp_luns {E : Nat → Desk → Prop} {own : Int} {id : Nat} {w : Desk}
    (hid : id < 8) (hne : (id : Int) ≠ own) (h : Asked own (units own id) w) :
    wp bus InTurn (fun _ => Asked own (units own (id + 1))) E
      (forRange (fun lun => probeUnit ⟨id, lun⟩) 8 0) w := by
  rw [units_succ, if_pos hne]
  show wp bus InTurn (fun _ => Asked own (units own id ++ unitsOf id (0 + 8))) E
    (forRange (fun lun => probeUnit ⟨id, lun⟩) 8 0) w
  refine wp_forRange (I := fun lun => Asked own (units own id ++ unitsOf id lun))
    ?_ ?_
  · intro lun w' _ hlun h
    apply wp_probeUnit
    · rw [h.asked, h.scsiId]
      exact next_in_turn hid (by omega) hne
    · intro reply
      rw [unitsOf_succ, ← List.append_assoc]
      exact asked_snoc h _ reply
  · rw [show unitsOf id 0 = [] from rfl, List.append_nil]
    exact h

/-- The body of the loop over the ids. -/
theorem wp_id {E : Nat → Desk → Prop} {own : Int} {id : Nat} {w : Desk}
    (hid : id < 8) (h : Asked own (units own id) w) :
    wp bus InTurn (fun _ => Asked own (units own (id + 1))) E
      (perform ProbeOp.scsiId >>= fun own : Int =>
        if (id : Int) ≠ own then forRange (fun lun => probeUnit ⟨id, lun⟩) 8 0
        else pure ()) w := by
  refine ⟨trivial, ?_⟩
  rintro r w' ⟨rfl, rfl⟩
  dsimp only [Prog.bind]
  rw [h.scsiId]
  by_cases hne : (id : Int) ≠ own
  · rw [if_pos hne]
    exact wp_luns hid hne h
  · rw [if_neg hne]
    show Asked own (units own (id + 1)) w'
    rw [units_succ, if_neg hne, List.append_nil]
    exact h

/-- The loop over the ids. -/
theorem wp_ids {E : Nat → Desk → Prop} {own : Int} {w : Desk}
    (h : Asked own [] w) :
    wp bus InTurn (fun _ => Asked own (units own 8)) E
      (forRange
        (fun id => perform ProbeOp.scsiId >>= fun own : Int =>
          if (id : Int) ≠ own then forRange (fun lun => probeUnit ⟨id, lun⟩) 8 0
          else pure ())
        8 0) w := by
  show wp bus InTurn (fun _ => Asked own (units own (0 + 8))) E _ w
  refine wp_forRange (I := fun n => Asked own (units own n)) ?_ h
  intro n w _ hn h
  exact wp_id (by omega) h

/-! ## `main` -/

/-- An argument that asks for help. -/
def helps (arg : String) : Bool :=
  (charAt arg 0 = '-' ∨ charAt arg 0 = '/')
    ∧ (charAt arg 1 = 'h' ∨ charAt arg 1 = 'H')

/-- What `usage` writes. -/
def usageText : List Char :=
  formatted "Usage: probe [-h]\n" []
    ++ formatted "       -h         Print this message.\n" []

/-- How the utility exits: on an argument with its usage, without a TRAM with
    a message, else with the report on all units. -/
def Ended : List String → Nat → Desk → Prop
  | arg :: _, status, w =>
      status = (if helps arg then 0 else 1) ∧ w.answers = [] ∧
        w.text = usageText
  | [], status, w =>
      if w.scsiId < 0 then
        status = 1 ∧ w.answers = [] ∧
          w.text = formatted "Failed to initialise SCSI.\n" []
      else
        status = 0 ∧ w.answers.map Prod.fst = units w.scsiId 8 ∧
          w.text = report w.scsiId w.answers

theorem wp_usage {A : Type} {E : Nat → Desk → Prop} {Q : A → Desk → Prop}
    {w : Desk} {value : Nat}
    (h : E value { w with text := w.text ++ usageText }) :
    wp bus InTurn Q E (usage value) w := by
  refine (wp_bind _ _ _).mpr (wp_printf ?_)
  refine (wp_bind _ _ _).mpr (wp_printf ?_)
  rw [usageText, ← List.append_assoc] at h
  exact h

/-- Every argument ends the program. -/
theorem wp_parse {E : Nat → Desk → Prop} {Q : Unit → Desk → Prop} {w : Desk}
    {arg : String} {args : List String}
    (h : E (if helps arg then 0 else 1) { w with text := w.text ++ usageText }) :
    wp bus InTurn Q E (parse (arg :: args)) w := by
  refine (wp_bind _ _ _).mpr ?_
  by_cases hdash : charAt arg 0 = '-' ∨ charAt arg 0 = '/'
  · rw [if_pos hdash]
    by_cases hh : charAt arg 1 = 'h' ∨ charAt arg 1 = 'H'
    · have hhelps : helps arg = true := decide_eq_true ⟨hdash, hh⟩
      rw [if_pos hhelps] at h
      rw [if_pos hh]
      exact wp_usage h
    · have hhelps : ¬ helps arg = true := fun h => hh (of_decide_eq_true h).2
      rw [if_neg hhelps] at h
      rw [if_neg hh]
      exact wp_usage h
  · have hhelps : ¬ helps arg = true := fun h => hdash (of_decide_eq_true h).1
    rw [if_neg hhelps] at h
    rw [if_neg hdash]
    exact wp_usage h

/-- The desk before the utility starts. -/
def Desk.start (scsiId : Int) : Desk := ⟨scsiId, [], []⟩

/-- With the TRAM initialised, all other units are asked. -/
theorem wp_main (args : List String) (scsiId : Int) :
    wp bus InTurn (fun _ _ => False) (Ended args) (main args)
      (Desk.start scsiId) := by
  cases args with
  | cons arg args =>
      refine (wp_bind _ _ _).mpr (wp_parse ?_)
      exact ⟨rfl, rfl, rfl⟩
  | nil =>
      refine (wp_pure_bind _ _ _).mpr ⟨trivial, ?_⟩
      rintro id w rfl
      dsimp only [Prog.bind]
      by_cases hneg : (id : Int) < 0
      · rw [if_pos hneg]
        refine (wp_bind _ _ _).mpr (wp_printf ?_)
        show if (id : Int) < 0 then _ else _
        rw [if_pos hneg]
        exact ⟨rfl, rfl, rfl⟩
      · rw [if_neg hneg]
        refine (wp_bind _ _ _).mpr (wp_printf ?_)
        refine (wp_bind _ _ _).mpr (wp_printf ?_)
        refine ⟨trivial, ?_⟩
        rintro _ w rfl
        dsimp only [Prog.bind]
        refine (wp_bind _ _ _).mpr (wp_printf ?_)
        refine wp_seq (wp_ids ⟨rfl, rfl, ?_⟩) ?_
        · show _ = heading id ++ []
          rw [List.append_nil]
          rfl
        · intro _ w h
          refine (wp_bind _ _ _).mpr (wp_putchar ?_)
          show if w.scsiId < 0 then _ else _
          rw [h.scsiId, if_neg hneg]
          exact ⟨rfl, h.asked, congrArg (· ++ ['\n']) h.text⟩

/-- **THE REPORT**: the utility never returns; with an argument it exits with
    its usage, without a TRAM with a message, and else with one line for each
    unit that answers, in the order of the addresses.  At any time of a run
    the units have been asked in turn, each once. -/
theorem main_reports {args : List String} {scsiId : Int} {w : Desk}
    {tr : Trace ProbeOp ProbeOp.Res} {out : Outcome Nat Unit}
    (h : Run bus (main args) (Desk.start scsiId) tr out w) :
    out.Meets (fun _ _ => False) (Ended args) w ∧
      ∀ tr₁ tr₂ address command reply,
        tr = tr₁ ++ ⟨.scsiCommand address command, reply⟩ :: tr₂ →
        command = inquiryCommand address ∧
          ∃ m, Run bus (main args) (Desk.start scsiId) tr₁ .running m ∧
            m.answers.map Prod.fst ++ [address] <+: units m.scsiId 8 := by
  refine ⟨wp_post (wp_main args scsiId) h, ?_⟩
  rintro tr₁ tr₂ address command reply rfl
  obtain ⟨m, hm, hcommand, hturn⟩ := wp_each (wp_main args scsiId) h
  exact ⟨hcommand, m, hm, hturn⟩

/-- A run that exits with 0 has made its report. -/
theorem ended_report {scsiId : Int} {w : Desk} {tr : Trace ProbeOp ProbeOp.Res}
    (h : Run bus (main []) (Desk.start scsiId) tr (.exited 0) w) :
    ¬ w.scsiId < 0 ∧ w.answers.map Prod.fst = units w.scsiId 8 ∧
      w.text = report w.scsiId w.answers := by
  have hend : Ended [] 0 w := wp_post (wp_main [] scsiId) h
  rw [Ended] at hend
  by_cases hneg : w.scsiId < 0
  · rw [if_pos hneg] at hend
    exact absurd hend.1 (by decide)
  · rw [if_neg hneg] at hend
    exact ⟨hneg, hend.2⟩

/-- A bus with one disk, which answers at id 2 and unit 0. -/
def oneDisk (data : List Byte) : Desk → (o : ProbeOp) → o.Res × Desk
  | w, .scsiInitialise => ((7 : Int), { w with scsiId := 7 })
  | w, .scsiId => (w.scsiId, w)
  | w, .scsiResetBus => ((), w)
  | w, .scsiCommand address _ =>
      let reply : Reply :=
        if address = ⟨2, 0⟩ then ⟨0, 0, 0, data⟩
        else ⟨-4, 0, 36, []⟩
      (reply, { w with answers := w.answers ++ [(address, reply)] })
  | w, .printf format args =>
      ((), { w with text := w.text ++ formatted format args })
  | w, .putchar c => ((), { w with text := w.text ++ [c] })

theorem oneDisk_bus (data : List Byte) (w : Desk) (o : ProbeOp) (r : o.Res)
    (w' : Desk) (h : oneDisk data w o = (r, w')) : bus w o r w' := by
  cases o
  all_goals
    obtain ⟨rfl, rfl⟩ := Prod.mk.inj h
    first
      | rfl
      | exact ⟨rfl, rfl⟩

/-- The desk in the end. -/
def oneDiskDesk (data : List Byte) : Desk :=
  (play (oneDisk data) (main []) (Desk.start 0)).2

theorem oneDisk_run {data : List Byte}
    (hend : (play (oneDisk data) (main []) (Desk.start 0)).1 = .exited 0) :
    ∃ tr, Run bus (main []) (Desk.start 0) tr (.exited 0) (oneDiskDesk data) := by
  obtain ⟨tr, h⟩ := play_run (oneDisk data) (main []) (Desk.start 0)
  rw [hend] at h
  exact ⟨tr, run_env_mono (oneDisk_bus data) h⟩

theorem oneDisk_reported : Ended [] 0 (oneDiskDesk []) := by
  have hend : (play (oneDisk []) (main []) (Desk.start 0)).1 = .exited 0 := rfl
  obtain ⟨tr, h⟩ := oneDisk_run hend
  exact (main_reports h).1

/-! ## Reading a report -/

/-- An entry that an inquiry may lead to. -/
structure Entry.Fits (e : Entry) : Prop where
  id : e.address.id < 8
  lun : e.address.lun < 8
  type : e.type < 32
  vendor : e.vendor.length = 8
  product : e.product.length = 16
  revision : e.revision.length = 4

theorem addressColumn_digits {address : Address} (hid : address.id < 8)
    (hlun : address.lun < 8) :
    addressColumn address = [' ', address.id.digitChar, ' ', ' ',
      address.lun.digitChar, ' ', ' '] := by
  obtain ⟨id, lun⟩ := address
  have hall : ∀ id < 8, ∀ lun < 8, addressColumn ⟨id, lun⟩
      = [' ', id.digitChar, ' ', ' ', lun.digitChar, ' ', ' '] := by decide
  exact hall id hid lun hlun

theorem digitChar_inj {n m : Nat} (hn : n < 8) (hm : m < 8)
    (h : n.digitChar = m.digitChar) : n = m := by
  have hall : ∀ n < 8, ∀ m < 8, n.digitChar = m.digitChar → n = m := by decide
  exact hall n hn m hm h

theorem typeColumn_length {type : Nat} (h : type < 32) :
    (typeColumn type).length = 18 := by
  have hall : ∀ type < 32, (typeColumn type).length = 18 := by decide
  exact hall type h

theorem typeColumn_inj {type type' : Nat} (h : type < 32) (h' : type' < 32)
    (heq : typeColumn type = typeColumn type') : type = type' := by
  have hnodup : ((List.range 32).map typeColumn).Nodup := by decide
  exact List.inj_on_of_nodup_map hnodup (List.mem_range.mpr h)
    (List.mem_range.mpr h') heq

theorem line_length {e : Entry} (h : e.Fits) : (line e).length = 56 := by
  simp only [line, List.length_append, addressColumn_digits h.id h.lun,
    typeColumn_length h.type, h.vendor, h.product, h.revision,
    List.length_cons, List.length_nil]

/-- A line is read column by column. -/
theorem line_inj {e e' : Entry} (h : e.Fits) (h' : e'.Fits)
    (heq : line e = line e') : e = e' := by
  obtain ⟨⟨id, lun⟩, type, vendor, product, revision⟩ := e
  obtain ⟨⟨id', lun'⟩, type', vendor', product', revision'⟩ := e'
  simp only [line, List.append_assoc] at heq
  rw [addressColumn_digits h.id h.lun, addressColumn_digits h'.id h'.lun] at heq
  obtain ⟨haddress, heq₁⟩ := List.append_inj heq rfl
  obtain ⟨htype, heq₂⟩ := List.append_inj heq₁
    ((typeColumn_length h.type).trans (typeColumn_length h'.type).symm)
  obtain ⟨hvendor, heq₃⟩ := List.append_inj heq₂ (h.vendor.trans h'.vendor.symm)
  obtain ⟨-, heq₄⟩ := List.append_inj heq₃ rfl
  obtain ⟨hproduct, heq₅⟩ :=
    List.append_inj heq₄ (h.product.trans h'.product.symm)
  obtain ⟨-, heq₆⟩ := List.append_inj heq₅ rfl
  obtain ⟨hrevision, -⟩ :=
    List.append_inj heq₆ (h.revision.trans h'.revision.symm)
  simp only [List.cons.injEq, true_and, and_true] at haddress
  obtain rfl := digitChar_inj h.id h'.id haddress.1
  obtain rfl := digitChar_inj h.lun h'.lun haddress.2
  obtain rfl := typeColumn_inj h.type h'.type htype
  rw [hvendor, hproduct, hrevision]

theorem inquiryRecord_length (data : List Byte) :
    (inquiryRecord data).length = inquirySize := by
  rw [inquiryRecord, List.length_take, List.length_append,
    List.length_replicate]
  omega

theorem shown_length (data : List Byte) : (shown data).length = data.length :=
  List.length_map ..

theorem entry_fits {address : Address} {reply : Reply} {e : Entry}
    (hid : address.id < 8) (hlun : address.lun < 8)
    (h : entry address reply = some e) : e.Fits := by
  have hlen := inquiryRecord_length reply.data
  rw [inquirySize] at hlen
  rw [entry] at h
  split at h
  · exact absurd h.symm (Option.some_ne_none e)
  · obtain rfl := Option.some.inj h
    refine ⟨hid, hlun, Nat.mod_lt _ (by decide), ?_, ?_, ?_⟩
    · show (shown (((inquiryRecord reply.data).drop 8).take 8)).length = 8
      rw [shown_length, List.length_take, List.length_drop, hlen]
      decide
    · show (shown (((inquiryRecord reply.data).drop 16).take 16)).length = 16
      rw [shown_length, List.length_take, List.length_drop, hlen]
      decide
    · show (shown (((inquiryRecord reply.data).drop 32).take 4)).length = 4
      rw [shown_length, List.length_take, List.length_drop, hlen]
      decide

theorem mem_units {own : Int} {n : Nat} {address : Address}
    (h : address ∈ units own n) :
    address.id < n ∧ address.lun < 8 ∧ (address.id : Int) ≠ own := by
  obtain ⟨id, hid, h⟩ := List.mem_flatMap.mp h
  obtain ⟨hrange, hne⟩ := List.mem_filter.mp hid
  obtain ⟨lun, hlun, rfl⟩ := List.mem_map.mp h
  exact ⟨List.mem_range.mp hrange, List.mem_range.mp hlun, of_decide_eq_true hne⟩

theorem listed_fits {own : Int} {answers : List (Address × Reply)}
    (h : answers.map Prod.fst = units own 8) : ∀ e ∈ listed answers, e.Fits := by
  intro e he
  obtain ⟨⟨address, reply⟩, hmem, hentry⟩ := List.mem_filterMap.mp he
  have haddress : address ∈ units own 8 := by
    rw [← h]
    exact List.mem_map_of_mem hmem
  obtain ⟨hid, hlun, -⟩ := mem_units haddress
  exact entry_fits hid hlun hentry

/-- The text after the number in the heading. -/
def afterNumber : List Char :=
  '\n' :: (formatted "\n" []
    ++ formatted "% 2s % 3s %- 17s %- 8s %- 16s %- 8s\n"
      [.str "Id".toList, .str "LUN".toList, .str "Device Type".toList,
        .str "Vendor".toList, .str "Product".toList, .str "Revision".toList])

theorem heading_eq {id : Int} (h : ¬ id < 0) :
    heading id
      = "SCSI TRAM id is ".toList
        ++ (Nat.toDigits 10 id.natAbs ++ '.' :: afterNumber) := by
  rw [← signed_plain h, heading]
  show "SCSI TRAM id is ".toList ++ (signed .plain id ++ ".\n".toList) ++ _ ++ _
    = _
  simp only [List.append_assoc]
  rfl

/-- **NOTHING IS LOST**: two runs of the probe that write the same report have
    been made by TRAMs with the same id, and have found the same units, with
    the same types and the same printable identifications. -/
theorem report_inj {start start' : Int} {w w' : Desk}
    {tr tr' : Trace ProbeOp ProbeOp.Res}
    (h : Run bus (main []) (Desk.start start) tr (.exited 0) w)
    (h' : Run bus (main []) (Desk.start start') tr' (.exited 0) w')
    (htext : w.text = w'.text) :
    w.scsiId = w'.scsiId ∧ listed w.answers = listed w'.answers := by
  obtain ⟨hid, hasked, hreport⟩ := ended_report h
  obtain ⟨hid', hasked', hreport'⟩ := ended_report h'
  rw [hreport, hreport', report, report, heading_eq hid, heading_eq hid'] at htext
  simp only [List.append_assoc, List.cons_append] at htext
  obtain ⟨-, hnumber⟩ := List.append_inj htext rfl
  obtain ⟨hnat, hrest⟩ := number_inj (by decide) hnumber
  obtain ⟨-, hlines⟩ := List.append_inj hrest rfl
  obtain ⟨hlines, -⟩ := List.append_inj' hlines rfl
  have hfits := listed_fits hasked
  have hfits' := listed_fits hasked'
  refine ⟨by omega, ?_⟩
  exact flatMap_inj (by decide) (fun e he => line_length (hfits e he))
    (fun e he => line_length (hfits' e he))
    (fun e he e' he' => line_inj (hfits e he) (hfits' e' he')) hlines

/-- The inquiry data of a disk without a name. -/
def blank : List Byte := List.replicate 8 0 ++ List.replicate 28 0x20

/-- A disk that leaves its identification empty, and one that fills it with
    blanks. -/
theorem oneDisk_alike :
    listed (oneDiskDesk []).answers = listed (oneDiskDesk blank).answers := by
  have hend : (play (oneDisk []) (main []) (Desk.start 0)).1 = .exited 0 := rfl
  have hend' : (play (oneDisk blank) (main []) (Desk.start 0)).1 = .exited 0 :=
    rfl
  have htext : (oneDiskDesk []).text = (oneDiskDesk blank).text := rfl
  obtain ⟨tr, h⟩ := oneDisk_run hend
  obtain ⟨tr', h'⟩ := oneDisk_run hend'
  exact (report_inj h h' htext).2

/-! ## Probing the example target driver -/

section ExampleTarget

open LabelledRuns TargetDriver TargetSystem TargetFlags TargetExclusion
open TargetTransfer TargetBuffer

variable {N : Type}

/-- The command block that has reached the target is the initiator's. -/
def Carries (target : Target) (command : Command) : Prop :=
  target.cdb.toList.take command.cdb.length = command.cdb.map UInt8.ofBitVec

/-- What the initiator gets for a command of 36 bytes that is complete. -/
def answer (v : Service N) : Reply :=
  { result := 0
    status := sstatGood.toBitVec
    residue := inquirySize - v.data.length
    data := v.data.map UInt8.toBitVec }

theorem inquiry_command {target : Target} {address : Address}
    (h : Carries target (inquiryCommand address)) :
    target.opcode = TargetDriver.scmdInquiry ∧ target.allocationLength = 36 := by
  have hget : ∀ i < 6, target.cdb.toList[i]?
      = ((inquiryCommand address).cdb.map UInt8.ofBitVec)[i]? := by
    intro i hi
    rw [← h]
    exact (List.getElem?_take_of_lt hi).symm
  have h₀ : some target.opcode = some TargetDriver.scmdInquiry := by
    rw [← opcode_get]
    exact hget 0 (by decide)
  have h₄ : some target.allocationLength = some 36 := by
    rw [← allocationLength_get]
    exact hget 4 (by decide)
  exact ⟨Option.some.inj h₀, Option.some.inj h₄⟩

/-- Its data are the driver's inquiry record. -/
theorem inquiry_data {b b' : List UInt8} {v : Service N} {address : Address}
    (h : Serves b v b') (hcdb : Carries v.command (inquiryCommand address)) :
    v.data = inquiryData := by
  obtain ⟨hI, hlen⟩ := inquiry_command hcdb
  obtain ⟨hlengths, hleaves, hgives⟩ := h
  have hsend : ¬ v.command.opcode = scmdSend := by
    rw [hI]
    decide
  have hlength : commandLength v.command = 36 := by
    rw [commandLength, if_pos hI]
    show min v.command.allocationLength.toNat stdInquirySize = 36
    rw [hlen]
    decide
  rw [hlength, show chunks dataSize 36 = [36] from by decide] at hlengths
  obtain ⟨p, hp, hplen⟩ := List.map_eq_singleton_iff.mp hlengths
  rw [stored, if_pos hI] at hleaves
  have hpiece := hgives (if_neg hsend) p (by rw [hp]; exact List.mem_cons_self)
  rw [hplen, hleaves, overlay] at hpiece
  rw [Service.data, hp, List.flatten_singleton, hpiece]
  exact List.take_left' inquiryData_length

/-- The entry of a TRAM that runs the driver. -/
def targetEntry (address : Address) : Entry :=
  { address := address
    type := 3
    vendor := "TRANST  ".toList
    product := "Example Target 0".toList
    revision := "001 ".toList }

/-- **THE DRIVER IS LISTED**: whatever other initiators do in a run without
    reset, abort or invalid reason, a probe whose inquiry completes finds the
    same entry, on every logical unit. -/
theorem target_listed [DecidableEq N] {getValue : GetValue}
    (hv : DecodesBigEndian getValue) {s₀ s : Sys N}
    {tr : List (Event N × Output N)} (h₀ : Initial s₀)
    (hsize : s₀.state.buffer.length = dataSize)
    (hr : Run (step getValue) s₀ tr s)
    (hplain : ∀ p ∈ tr, Plain p.1) (hfull : ∀ p ∈ tr, FullPhase p.1)
    {v : Service N} (hdone : v ∈ (history getValue s₀ .empty tr).done)
    {address : Address} (hcdb : Carries v.command (inquiryCommand address)) :
    entry address (answer v) = some (targetEntry address) := by
  obtain ⟨-, -, b, hserial, -⟩ := history_recorded hv h₀ hsize hr hplain hfull
  obtain ⟨m, m', hserves⟩ := serial_mem hserial hdone
  have hdata := inquiry_data hserves hcdb
  rw [answer, hdata]
  rfl

/-- The command block with the probe's inquiry. -/
def probe36 : Target :=
  { turn .command with cdb := cdbOf TargetDriver.scmdInquiry 0 0 36 }

/-- Nexus 1 receives 8192 bytes, and is disconnected when nexus 0 asks for the
    first time: the driver is busy.  Nexus 1 completes, and sends two bytes
    into the buffer, before nexus 0 asks again. -/
def tradedEvents : List (Event Nat) :=
  [.callback 1 receive8k [], .callback 1 (turn .dataIn) [],
    .callback 1 (turn .disconnect) [], .callback 0 probe36 [], .wake 1,
    .callback 1 (turn .reselect) [], .callback 1 (turn .dataIn) [],
    .callback 1 send2 [], .callback 1 { turn .dataOut with dataLen := 2 } [7, 9],
    .callback 0 probe36 [], .callback 0 { turn .dataIn with dataLen := 36 } [],
    .callback 1 receive2 [], .callback 1 { turn .dataIn with dataLen := 2 } []]

theorem tradedEvents_run :
    (exec (step manualGetValue) allocated tradedEvents).isSome = true := by
  decide

/-- The run of `tradedEvents`. -/
def tradedRun : List (Event Nat × Output Nat) :=
  (outcome (step manualGetValue) allocated _ tradedEvents_run).1

theorem tradedRun_plain : ∀ p ∈ tradedRun, Plain p.1 := by decide

theorem tradedRun_full : ∀ p ∈ tradedRun, FullPhase p.1 := by decide

/-- The inquiry as it has been served. -/
def inquiryService : Service Nat := ⟨0, probe36, [inquiryData]⟩

/-- Two commands of nexus 1 are complete before the inquiry, and one after
    it. -/
theorem target_listed_once :
    (history manualGetValue allocated .empty tradedRun).done.map Service.nexus
        = [1, 1, 0, 1] ∧
      entry ⟨6, 0⟩ (answer inquiryService) = some (targetEntry ⟨6, 0⟩) := by
  have hdone : (history manualGetValue allocated .empty tradedRun).done[2]?
      = some inquiryService := rfl
  have hcdb : Carries inquiryService.command (inquiryCommand ⟨6, 0⟩) := rfl
  exact ⟨by decide, target_listed manualGetValue_decodes allocated_initial
    allocated_size (outcome_run tradedEvents_run) tradedRun_plain tradedRun_full
    (List.mem_of_getElem? hdone) hcdb⟩

end ExampleTarget

end ProbeResults
