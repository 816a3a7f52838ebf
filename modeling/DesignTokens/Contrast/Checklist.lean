/-!
# Touch targets and the manual checklist

A touch target is large enough when both its edges reach 44 px.  The checklist is what a person has
to verify by hand, grouped by the four principles of WCAG 2.1.
-/

namespace DesignTokens

/-- The outcome of checking the size of a touch target, in pixels. -/
structure TouchTarget where
  width : Nat
  height : Nat
  required : Nat
  passes : Bool
deriving DecidableEq, Repr

namespace TouchTarget

/-- The minimum edge of a touch target. -/
def minEdge : Nat := 44

/-- Checks a size. -/
def check (width height : Nat) : TouchTarget :=
  { width, height, required := minEdge, passes := minEdge ≤ width && minEdge ≤ height }

/-- The outcome in one line. -/
def message (target : TouchTarget) : String :=
  let size := s!"{target.width}x{target.height}px"
  let least := s!"{target.required}x{target.required}px"
  if target.passes then s!"✓ Touch target meets minimum size ({size} >= {least})"
  else s!"✗ Touch target too small ({size} < {least})"

end TouchTarget

/-- A principle and what is to be verified under it. -/
structure ChecklistSection where
  title : String
  items : List String
deriving DecidableEq, Repr

/-- The checklist, in the order of the principles. -/
def checklist : List ChecklistSection :=
  [ { title := "PERCEIVABLE"
      items :=
        [ "Text has sufficient color contrast (4.5:1 for normal, 3:1 for large)",
          "Non-text elements have 3:1 contrast ratio",
          "Color is not the only means of conveying information",
          "Text can be resized to 200% without loss of content",
          "Images have appropriate alt text",
          "Audio/video has captions or transcripts" ] },
    { title := "OPERABLE"
      items :=
        [ "All functionality available via keyboard",
          "No keyboard traps",
          "Focus order is logical",
          "Focus indicators are visible",
          "Touch targets are at least 44x44px",
          "Users can pause, stop, or hide moving content",
          "No content flashes more than 3 times per second" ] },
    { title := "UNDERSTANDABLE"
      items :=
        [ "Language of page is identified",
          "Navigation is consistent",
          "Form labels are associated with inputs",
          "Error messages are clear and specific",
          "Instructions don't rely solely on sensory characteristics" ] },
    { title := "ROBUST"
      items :=
        [ "HTML is valid and well-formed",
          "Name, role, and value are programmatically determined",
          "Status messages are announced to screen readers",
          "Custom components have appropriate ARIA attributes" ] } ]

end DesignTokens
