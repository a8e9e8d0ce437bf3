import Jack.Screen.Style

/-!
The colors of the viewer, named for what they mark.
-/

namespace Jack.Theme

def text : Color := .rgb 235 219 178

/-- Comments, line numbers, separators and the borders out of focus. -/
def muted : Color := .rgb 124 111 100

/-- The border in focus and the names of functions. -/
def accent : Color := .rgb 250 189 47

/-- Keywords, brackets, calls and the badge of the position. -/
def keyword : Color := .rgb 131 165 152

def literal : Color := .rgb 211 134 155

def typeName : Color := .rgb 142 192 124

/-- Labels and the jumps to them. -/
def jump : Color := .rgb 254 128 25

/-- Pushes and the badge of the start. -/
def ok : Color := .rgb 184 187 38

/-- Pops, the number of the selected line and the badge of the end. -/
def marker : Color := .rgb 215 153 33

def error : Color := .rgb 251 73 52

/-- The background of the selected line and of the status bar. -/
def selection : Color := .rgb 60 56 54

def border (focused : Bool) : Style :=
  if focused then (Style.ink accent).strong else Style.ink muted

end Jack.Theme
