import Montage.Media.Arguments

/-!
# What the arguments of a call stand for

An argument vector is read from its front. Whatever stands behind a flag is the value of the flag,
also if it looks like a flag itself, so that no path, number or filter is taken for one. Each
argument vector opens the files that it is made for, in their order, and its last argument is the
output.
-/

namespace Montage.Arguments

/-! ## Reading an argument vector -/

/-- The flag is followed by a value. Only the one that lets files be overwritten stands alone. -/
def takesValue (flag : String) : Bool := flag.toList.head? == some '-' && flag ≠ "-y"

/-- The files that are opened for reading: the values of the flag for an input. -/
def opened : List String → List String
  | [] => []
  | [_] => []
  | flag :: value :: rest =>
    if flag = "-i" then value :: opened rest
    else if takesValue flag then opened rest
    else opened (value :: rest)

/-- The files that are opened are these inputs, and the last argument is the output. -/
structure Reads (arguments : List String) (inputs : List Path) (output : Path) : Prop where
  opened : opened arguments = inputs.map Path.text
  output : arguments.getLast? = some output.text

namespace Reads
variable {arguments : List String} {inputs : List Path} {output : Path}

theorem last (output : Path) : Reads [output.text] [] output := ⟨rfl, rfl⟩

theorem getLast?_cons_cons (h : Reads arguments inputs output) (flag value : String) :
    (flag :: value :: arguments).getLast? = some output.text := by
  rw [List.getLast?_cons, List.getLast?_cons, h.output]
  rfl

theorem input (h : Reads arguments inputs output) (p : Path) :
    Reads ("-i" :: p.text :: arguments) (p :: inputs) output where
  opened := by rw [Arguments.opened, if_pos rfl, h.opened, List.map_cons]
  output := h.getLast?_cons_cons "-i" p.text

/-- The value of another flag is passed over. -/
theorem flag (h : Reads arguments inputs output) {flag : String}
    (hflag : flag ≠ "-i" ∧ takesValue flag = true) (value : String) :
    Reads (flag :: value :: arguments) inputs output where
  opened := by rw [Arguments.opened, if_neg hflag.1, if_pos hflag.2, h.opened]
  output := h.getLast?_cons_cons flag value

theorem overwrite (h : Reads arguments inputs output) :
    Reads ("-y" :: arguments) inputs output := by
  obtain ⟨a, rest, rfl⟩ : ∃ a rest, arguments = a :: rest := by
    apply List.exists_cons_of_ne_nil
    rintro rfl
    exact absurd h.output nofun
  constructor
  · rw [Arguments.opened, if_neg (by decide), if_neg (by decide), h.opened]
  · rw [List.getLast?_cons_cons, h.output]

end Reads

/-! ## The argument vectors -/

variable (input output : Path)

theorem reads_filtered (filter : String) : Reads (filtered input filter output) [input] output := by
  apply Reads.overwrite
  apply Reads.input
  apply Reads.flag _ (by decide)
  apply Reads.flag _ (by decide)
  exact Reads.last output

theorem reads_copy : Reads (copy input output) [input] output := by
  apply Reads.overwrite
  apply Reads.input
  apply Reads.flag _ (by decide)
  exact Reads.last output

theorem reads_concat (list : Path) : Reads (concat list output) [list] output := by
  apply Reads.overwrite
  apply Reads.flag _ (by decide)
  apply Reads.flag _ (by decide)
  apply Reads.input
  apply Reads.flag _ (by decide)
  exact Reads.last output

/-- The first input of a graph stands in front of the others. -/
theorem reads_composed {second : List String} {inputs : List Path}
    (hsecond : ∀ arguments, Reads arguments [] output → Reads (second ++ arguments) inputs output)
    (graph : String) : Reads (composed input second graph output) (input :: inputs) output := by
  have hgraph : Reads ["-filter_complex", graph, "-map", "[v]", "-map", "0:a?", "-c:a", "copy",
      output.text] [] output := by
    apply Reads.flag _ (by decide)
    apply Reads.flag _ (by decide)
    apply Reads.flag _ (by decide)
    apply Reads.flag _ (by decide)
    exact Reads.last output
  rw [composed, List.append_assoc]
  apply Reads.overwrite
  apply Reads.input
  exact hsecond _ hgraph

variable {T : Type} [Spelled T]

theorem reads_trim (p : Trim T) : Reads (trim p input output) [input] output := by
  have hrest : Reads ["-i", input.text, "-c", "copy", output.text] [input] output := by
    apply Reads.input
    apply Reads.flag _ (by decide)
    exact Reads.last output
  unfold trim
  cases p.stop with
  | none =>
    apply Reads.overwrite
    exact hrest.flag (by decide) _
  | some stop =>
    apply Reads.overwrite
    apply Reads.flag _ (by decide)
    exact hrest.flag (by decide) _

theorem reads_addImageOverlay (p : ImageOverlay T) (image : Path) :
    Reads (addImageOverlay p image input output) [input, image] output :=
  reads_composed input output (fun _ h => h.input image) _

/-- The offset of a clip stands in front of it. -/
theorem reads_overlayVideo (p : VideoOverlay T) (clip : Path) :
    Reads (overlayVideo p clip input output) [input, clip] output :=
  reads_composed input output (fun _ h => (h.input clip).flag (by decide) _) _

variable [TimeScale T]

theorem reads_changeSpeed (p : Speed T) : Reads (changeSpeed p input output) [input] output := by
  apply Reads.overwrite
  apply Reads.input
  apply Reads.flag _ (by decide)
  apply Reads.flag _ (by decide)
  exact Reads.last output

/-- Without an adjustment the input is copied. -/
theorem reads_colorCorrection (p : ColorCorrection T) :
    Reads (colorCorrection p input output) [input] output := by
  unfold colorCorrection
  extract_lets adjustment adjustments
  split
  · exact reads_copy input output
  · exact reads_filtered input output _

end Montage.Arguments
