/-
  Event streams. A frame names an event and carries one line of data; the reader takes lines,
  which a line feed, a carriage return or both end, gathers the fields of an event, and
  delivers it at the empty line.

  `decode_frames`: a reader of frames gets the events back, whatever their names and data are,
  as long as neither has a line end in it. `decode_dataFrames` is the same for events that have
  no name.
-/
import Mathlib.Data.List.Basic

namespace TruellmEngine.Lib.Sse

structure Event where
  name : List Char
  data : List Char
  deriving DecidableEq

/-- The text of one event. -/
def frame (e : Event) : List Char :=
  "event: ".toList ++ e.name ++ "\ndata: ".toList ++ e.data ++ "\n\n".toList

/-! ## The reader -/

/-- The lines of a text; `line` is what came of the first one, the last character first. What
    no line end follows is not a line. -/
def linesFrom (line : List Char) : List Char → List (List Char)
  | [] => []
  | '\r' :: '\n' :: cs => line.reverse :: linesFrom [] cs
  | '\r' :: cs => line.reverse :: linesFrom [] cs
  | '\n' :: cs => line.reverse :: linesFrom [] cs
  | c :: cs => linesFrom (c :: line) cs

/-- What is behind the colon of a field, without the one space that may follow it. -/
def fieldValue (line : List Char) : List Char :=
  match (line.dropWhile (· ≠ ':')).drop 1 with
  | ' ' :: cs => cs
  | cs => cs

/-- The event with one more line read; each line of data ends with a line feed. -/
def readField (e : Event) (line : List Char) : Event :=
  if line.takeWhile (· ≠ ':') = "event".toList then { e with name := fieldValue line }
  else if line.takeWhile (· ≠ ':') = "data".toList then
    { e with data := e.data ++ fieldValue line ++ ['\n'] }
  else e

/-- The events of the lines; one without data is not delivered. -/
def readLines (e : Event) : List (List Char) → List Event
  | [] => []
  | [] :: lines =>
    if e.data = [] then readLines ⟨[], []⟩ lines
    else ⟨if e.name = [] then "message".toList else e.name, e.data.dropLast⟩ ::
      readLines ⟨[], []⟩ lines
  | line :: lines => readLines (readField e line) lines

def decode (text : List Char) : List Event := readLines ⟨[], []⟩ (linesFrom [] text)

/-! ## Reading frames -/

/-- No line ends here. -/
def OneLine (text : List Char) : Prop := '\n' ∉ text ∧ '\r' ∉ text

instance (text : List Char) : Decidable (OneLine text) := inferInstanceAs (Decidable (_ ∧ _))

theorem oneLine_append {a b : List Char} (ha : OneLine a) (hb : OneLine b) : OneLine (a ++ b) :=
  ⟨by simp [ha.1, hb.1], by simp [ha.2, hb.2]⟩

theorem linesFrom_line (line : List Char) {text : List Char} (h : OneLine text)
    (rest : List Char) :
    linesFrom line (text ++ '\n' :: rest) = (line.reverse ++ text) :: linesFrom [] rest := by
  induction text generalizing line with
  | nil => simp [linesFrom]
  | cons c text ih =>
    obtain ⟨hn, hr⟩ := h
    rw [List.mem_cons, not_or] at hn hr
    have hc : linesFrom line (c :: text ++ '\n' :: rest) =
        linesFrom (c :: line) (text ++ '\n' :: rest) := by
      rw [List.cons_append, linesFrom]
      · exact fun _ h _ => hr.1 h.symm
      · exact fun h => hr.1 h.symm
      · exact fun h => hn.1 h.symm
    rw [hc, ih (c :: line) ⟨hn.2, hr.2⟩]
    simp

theorem linesFrom_frame {e : Event} (hname : OneLine e.name) (hdata : OneLine e.data)
    (rest : List Char) :
    linesFrom [] (frame e ++ rest) =
      ("event: ".toList ++ e.name) :: ("data: ".toList ++ e.data) :: [] :: linesFrom [] rest := by
  have hshape : frame e ++ rest =
      ("event: ".toList ++ e.name) ++ '\n' :: (("data: ".toList ++ e.data) ++ '\n' ::
        ([] ++ '\n' :: rest)) := by
    unfold frame
    simp only [List.append_assoc]
    rfl
  rw [hshape, linesFrom_line [] (oneLine_append (by decide) hname),
    linesFrom_line [] (oneLine_append (by decide) hdata), linesFrom_line [] (by decide)]
  rfl

theorem readField_event (e : Event) (name : List Char) :
    readField e ("event: ".toList ++ name) = { e with name := name } := rfl

theorem readField_data (e : Event) (data : List Char) :
    readField e ("data: ".toList ++ data) = { e with data := e.data ++ data ++ ['\n'] } := rfl

/-- The lines of a frame deliver its event, and the reader starts over. -/
theorem readLines_frame {e : Event} (hname : e.name ≠ []) (lines : List (List Char)) :
    readLines ⟨[], []⟩
        (("event: ".toList ++ e.name) :: ("data: ".toList ++ e.data) :: [] :: lines) =
      e :: readLines ⟨[], []⟩ lines := by
  show readLines (readField (readField ⟨[], []⟩ ("event: ".toList ++ e.name))
    ("data: ".toList ++ e.data)) ([] :: lines) = _
  rw [readField_event, readField_data, readLines, if_neg (by simp), if_neg hname]
  simp

theorem decode_frames {es : List Event}
    (h : ∀ e ∈ es, e.name ≠ [] ∧ OneLine e.name ∧ OneLine e.data) :
    decode (es.flatMap frame) = es := by
  induction es with
  | nil => rfl
  | cons e es ih =>
    obtain ⟨⟨hne, hname, hdata⟩, hes⟩ := List.forall_mem_cons.mp h
    unfold decode at ih ⊢
    rw [List.flatMap_cons, linesFrom_frame hname hdata, readLines_frame hne, ih hes]

/-! ## Events without a name -/

/-- The text of an event that has data only. -/
def dataFrame (data : List Char) : List Char := "data: ".toList ++ data ++ "\n\n".toList

theorem linesFrom_dataFrame {data : List Char} (h : OneLine data) (rest : List Char) :
    linesFrom [] (dataFrame data ++ rest) =
      ("data: ".toList ++ data) :: [] :: linesFrom [] rest := by
  have hshape : dataFrame data ++ rest =
      ("data: ".toList ++ data) ++ '\n' :: ([] ++ '\n' :: rest) := by
    unfold dataFrame
    simp only [List.append_assoc]
    rfl
  rw [hshape, linesFrom_line [] (oneLine_append (by decide) h), linesFrom_line [] (by decide)]
  rfl

theorem readLines_dataFrame (data : List Char) (lines : List (List Char)) :
    readLines ⟨[], []⟩ (("data: ".toList ++ data) :: [] :: lines) =
      ⟨"message".toList, data⟩ :: readLines ⟨[], []⟩ lines := by
  show readLines (readField ⟨[], []⟩ ("data: ".toList ++ data)) ([] :: lines) = _
  rw [readField_data, readLines, if_neg (by simp), if_pos rfl]
  simp

/-- Events without a name are delivered as messages. -/
theorem decode_dataFrames {ds : List (List Char)} (h : ∀ d ∈ ds, OneLine d) :
    decode (ds.flatMap dataFrame) = ds.map fun d => ⟨"message".toList, d⟩ := by
  induction ds with
  | nil => rfl
  | cons d ds ih =>
    obtain ⟨hd, hds⟩ := List.forall_mem_cons.mp h
    unfold decode at ih ⊢
    rw [List.flatMap_cons, linesFrom_dataFrame hd, readLines_dataFrame, ih hds, List.map_cons]

end TruellmEngine.Lib.Sse
