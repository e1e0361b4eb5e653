import Chip8.Display.Basic

/-!
# Frames as text

A frame is shown on a terminal as a panel: one cell for each pixel, inside a border whose upper
edge carries a title. A lit pixel is a half block and a dark one a blank.
-/

namespace Chip8.Panel

/-- The title. -/
def title : List Char := ['C', 'H', 'I', 'P', '-', '8']

/-- The upper edge. -/
def top : String :=
  String.ofList (['┌'] ++ title ++ List.replicate (Frame.width - title.length) '─' ++ ['┐'])

/-- The lower edge. -/
def bottom : String := String.ofList (['└'] ++ List.replicate Frame.width '─' ++ ['┘'])

/-- One row of pixels between the side edges. -/
def row (f : Frame) (y : Nat) : String :=
  String.ofList
    (['│'] ++ (List.range Frame.width).map (fun x => if f.lit x y then '▄' else ' ') ++ ['│'])

/-- The whole panel, line by line. -/
def lines (f : Frame) : List String := [top] ++ (List.range Frame.height).map (row f) ++ [bottom]

/-- A display that keeps the frame shown last. It clears by showing a blank frame. -/
def display : Display (Option Frame) where
  draw frame _ := (.ok (), some frame)

/-- What the display shows: nothing before the first frame. -/
def shown (screen : Option Frame) : List String := (screen.map lines).getD []

end Chip8.Panel
