/-! How the program names itself. -/

namespace Chip8.About

def name : String := "Chippy8"

def version : String := "0.3.0"

def rights : String :=
  "Copyright (C) 2024 Chippy8 Developers, licensed under GNU Affero General Public License v3.0"

/-- Opens the greeting and the report of a halt. -/
def intro : String := name ++ " V" ++ version ++ " -- "

/-- The first line that a launch prints. -/
def greeting : String := intro ++ rights

end Chip8.About
